import Mathlib.Data.List.Forall2
import Readback.Proofs.Program.Types
import Readback.Proofs.Reading.Declarator

/-! # Types are read back from their declarators

The declarator of a type is written from the name outwards: the text inside is handed to the next part
of the type, which puts itself around it. So what is shown of a type is relative to the text inside: if
that text spells a declarator of some name with some derivations, then the whole spells a declaration of
this name with the derivations of the type after them.

* `CType.normal` is the type that is read: the qualifiers of an array are those of its elements, and
  those of a function are left out, since C has no place for either.
* `CType.Legible` is the condition on a type. Its records have identifiers as names, and no function
  type lists just `void`, which is written like an empty list of parameters. It is asked of all types
  that a type consists of (`CType.within`), since parameters have declarators of their own.
* What stands inside the declarator of a type is either a direct declarator, in front of brackets and
  parameters, or any declarator, in front of a pointer (`CType.inside`). A pointer is put into
  parentheses where the first is asked for (`inside_of_pointer`).
* `CType.SpellsAround` is the statement that is proved by induction on types, and its last derivation
  belongs to the type as well (`SpellsAround.outward`).

The lexemes of each part are found first (`lexemes_joinWords`, `lexemes_brackets`, `lexemes_call` and so
on): blanks are put so that no two words run into each other (`lexemes_gap`). The results are
`CType.declarator_spells` for types and `CType.paramTexts_spell` for lists of parameters without names.
-/

namespace Readback

/-! ### Types up to the place of qualifiers -/

namespace CType

mutual

/-- The type with further qualifiers, where those of an array are moved to its elements and those of
a function are left out. -/
def normal : CType → Quals → CType
  | .builtin quals kind, outer => .builtin (quals.union outer) kind
  | .record quals decl, outer => .record (quals.union outer) decl
  | .pointer quals pointee, outer => .pointer (quals.union outer) (normal pointee .none)
  | .array quals element size, outer => .array .none (normal element (quals.union outer)) size
  | .function _ result params isVariadic, _ =>
    .function .none (normal result .none) (normals params) isVariadic

/-- The types of parameters, one by one. -/
def normals : List CType → List CType
  | [] => []
  | c :: cs => normal c .none :: normals cs

end

mutual

/-- The types that a type consists of, itself included. -/
def within : CType → List CType
  | .builtin quals kind => [.builtin quals kind]
  | .record quals decl => [.record quals decl]
  | .pointer quals pointee => .pointer quals pointee :: within pointee
  | .array quals element size => .array quals element size :: within element
  | .function quals result params isVariadic =>
    .function quals result params isVariadic :: (within result ++ withinAll params)

/-- The types that some types consist of. -/
def withinAll : List CType → List CType
  | [] => []
  | c :: cs => within c ++ withinAll cs

end

/-- The records of the type have identifiers as names, and no function type lists just `void`. -/
structure Legible (named : String → DeclId → Prop) (tagOf : DeclId → String) (c : CType) :
    Prop where
  tagged : ∀ quals decl, .record quals decl ∈ c.within →
    isIdentifier (tagOf decl) = true ∧ named (tagOf decl) decl
  prototyped : ∀ quals result, .function quals result [.builtin .none .void] false ∉ c.within

variable {named : String → DeclId → Prop} {tagOf : DeclId → String}

theorem Legible.mono {c c' : CType} (h : c.Legible named tagOf) (hsub : c'.within ⊆ c.within) :
    c'.Legible named tagOf :=
  ⟨fun quals decl hmem => h.tagged quals decl (hsub hmem),
    fun quals result hmem => h.prototyped quals result (hsub hmem)⟩

theorem within_subset_withinAll {c : CType} {cs : List CType} (h : c ∈ cs) :
    c.within ⊆ withinAll cs := by
  induction cs with
  | nil => cases h
  | cons c' cs ih =>
      rw [withinAll]
      obtain rfl | h := List.mem_cons.mp h
      · exact List.subset_append_left _ _
      · exact List.Subset.trans (ih h) (List.subset_append_right _ _)

/-- Only a builtin type by itself is read as such. -/
theorem eq_builtin_of_normals {cs : List CType} {quals : Quals} {kind : Builtin}
    (h : normals cs = [.builtin quals kind]) : cs = [.builtin quals kind] := by
  match cs with
  | [c] => cases c <;> simp_all [normals, normal]
  | [] => cases h
  | _ :: _ :: _ => simp [normals] at h

end CType

/-! ### Parts of the text -/

namespace Quals

theorem isQualifier_words (q : Quals) : ∀ s ∈ q.words, isQualifier s = true := by
  obtain ⟨c, v, r⟩ := q
  cases c <;> cases v <;> cases r <;> decide

theorem ofWords_words (q : Quals) : ofWords q.words = q := by
  obtain ⟨c, v, r⟩ := q
  cases c <;> cases v <;> cases r <;> rfl

/-- Other words do not qualify. -/
theorem ofWords_append {ss : List String} (hss : ∀ s ∈ ss, isQualifier s = false)
    (ws : List String) : ofWords (ws ++ ss) = ofWords ws := by
  have hnot : ∀ s, isQualifier s = true → s ∉ ss := by
    intro s hs hmem
    rw [hss s hmem] at hs
    cases hs
  simp [ofWords, hnot "const" rfl, hnot "volatile" rfl, hnot "restrict" rfl]

end Quals

theorem lexemes_struct (tag : String) :
    lexemes ("struct " ++ tag) = .word "struct" :: lexemes tag :=
  lexemes_blank "struct" tag

theorem Builtin.not_isQualifier_words (k : Builtin) : ∀ s ∈ k.words, isQualifier s = false :=
  fun _ hs => (by decide : ∀ s ∈ typeWords, isQualifier s = false) _ (k.words_subset hs)

namespace Specifies

variable {named : String → DeclId → Prop}

theorem of_builtin (q : Quals) (kind : Builtin) :
    Specifies named (q.words ++ kind.words) (.builtin q kind) := by
  have hfilter : (q.words ++ kind.words).filter (!isQualifier ·) = kind.words := by
    have hquals : q.words.filter (!isQualifier ·) = [] :=
      List.filter_eq_nil_iff.mpr fun s hs => by simp [q.isQualifier_words s hs]
    have hkind : kind.words.filter (!isQualifier ·) = kind.words :=
      List.filter_eq_self.mpr fun s hs => by simp [kind.not_isQualifier_words s hs]
    rw [List.filter_append, hquals, hkind, List.nil_append]
  have h : Specifies named _ _ := .builtin kind hfilter
  rwa [Quals.ofWords_append kind.not_isQualifier_words, Quals.ofWords_words] at h

theorem of_record (q : Quals) {tag : String} {decl : DeclId} (tagged : isIdentifier tag = true)
    (names : named tag decl) : Specifies named (q.words ++ ["struct", tag]) (.record q decl) := by
  have h := Specifies.record tagged names q.isQualifier_words (List.forall_mem_nil _)
  rwa [List.append_nil, Quals.ofWords_words] at h

end Specifies

/-- A blank between two texts that are there keeps them apart. -/
theorem lexemes_gap (a b : String) :
    lexemes (a ++ (if a.isEmpty || b.isEmpty then "" else " ") ++ b) = lexemes a ++ lexemes b := by
  by_cases ha : a = ""
  · simp [ha]
  · by_cases hb : b = ""
    · simp [hb]
    · rw [if_neg (by simp [ha, hb]), lexemes_blank]

theorem lexemes_joinWords (quals base inner : String) :
    lexemes (CType.joinWords quals base inner) =
      lexemes quals ++ lexemes base ++ lexemes inner := by
  have lead : ∀ s, lexemes ((if quals.isEmpty then "" else quals ++ " ") ++ s) =
      lexemes quals ++ lexemes s := by
    intro s
    by_cases hq : quals = ""
    · simp [hq]
    · rw [if_neg (by simpa using hq), lexemes_blank]
  have trail : ∀ s, lexemes (s ++ if inner.isEmpty then "" else " " ++ inner) =
      lexemes s ++ lexemes inner := by
    intro s
    by_cases hi : inner = ""
    · simp [hi]
    · rw [if_neg (by simpa using hi), ← String.append_assoc, lexemes_blank]
  rw [CType.joinWords, trail, lead]

theorem lexemes_star (words inner : String) :
    lexemes ("*" ++ words ++ (if words.isEmpty || inner.isEmpty then "" else " ") ++ inner) =
      .star :: (lexemes words ++ lexemes inner) := by
  have h := lexemes_break "" (c := '*')
    (words ++ (if words.isEmpty || inner.isEmpty then "" else " ") ++ inner) rfl
  rw [lexemes_gap, ← String.append_assoc, ← String.append_assoc] at h
  exact h

theorem lexemes_group (s : String) :
    lexemes ("(" ++ s ++ ")") = .lparen :: lexemes s ++ [.rparen] :=
  lexemes_enclosed "" s (l := '(') (r := ')') rfl rfl

theorem lexemes_brackets (a s : String) :
    lexemes (a ++ "[" ++ s ++ "]") = lexemes a ++ .lbracket :: (lexemes s ++ [.rbracket]) :=
  lexemes_enclosed a s (l := '[') (r := ']') rfl rfl

theorem lexemes_call (a s : String) :
    lexemes (a ++ "(" ++ s ++ ")") = lexemes a ++ .lparen :: (lexemes s ++ [.rparen]) :=
  lexemes_enclosed a s (l := '(') (r := ')') rfl rfl

theorem lexemes_commas (s s' : String) (ss : List String) :
    lexemes (", ".intercalate (s :: s' :: ss)) =
      lexemes s ++ .comma :: lexemes (", ".intercalate (s' :: ss)) := by
  have hcomma : ", " = String.singleton ',' ++ " " := rfl
  rw [String.intercalate_cons_cons]
  generalize ", ".intercalate (s' :: ss) = rest
  have hblank : lexemes (" " ++ rest) = lexemes rest := lexemes_blank "" rest
  rw [hcomma, ← String.append_assoc, String.append_assoc, lexemes_break s (" " ++ rest) rfl, hblank,
    List.append_assoc]
  rfl

/-! ### Lists of parameters -/

/-- The text spells the declaration. -/
def SpellsText (named : String → DeclId → Prop) (s : String) (d : Declaration) : Prop :=
  Spells named (lexemes s) (.declaration d)

section Lists

variable {named : String → DeclId → Prop} {texts : List String} {ds : List Declaration}
  {isVariadic : Bool}

theorem items_spell (h : List.Forall₂ (SpellsText named) texts ds)
    (nonempty : texts ≠ [] ∨ isVariadic = true) :
    Spells named (lexemes (", ".intercalate (texts ++ if isVariadic then ["..."] else [])))
      (.items ds isVariadic) := by
  induction h with
  | nil =>
      obtain rfl := nonempty.resolve_left fun h => h rfl
      exact .ellipsis
  | @cons s d ss ds hs hss ih =>
      rw [List.cons_append]
      cases hrest : ss ++ if isVariadic then ["..."] else [] with
      | nil =>
          obtain ⟨rfl, hv⟩ := List.append_eq_nil_iff.mp hrest
          obtain rfl : isVariadic = false := by cases isVariadic <;> simp_all
          cases hss
          exact .last hs
      | cons s' ss' =>
          have more := ih (by cases ss <;> cases isVariadic <;> simp_all)
          rw [hrest] at more
          rw [lexemes_commas]
          exact .more hs more

theorem Declaration.type_of_isVoid {d : Declaration} (h : d.isVoid = true) :
    d.type = .builtin .none .void := by
  unfold isVoid at h
  split at h
  · next name quals =>
      obtain ⟨c, v, r⟩ := quals
      cases c <;> cases v <;> cases r <;> simp_all [Quals.isEmpty, type, Quals.none]
  · cases h

theorem parameters_eq_map (h : ∀ d, ds = [d] → isVariadic = false → d.isVoid = false) :
    parameters ds isVariadic = ds.map fun d => (d.name, d.type) := by
  unfold parameters
  split
  · next d =>
      rw [if_neg (by simp [h d rfl rfl])]
      rfl
  · rfl

/-- A declarator followed by a list of parameters, which is read back unless it is just `void`. -/
theorem call_spells {inner x : String} {es : List Derivation}
    (hinner : Spells named (lexemes inner) (.direct x es))
    (h : List.Forall₂ (SpellsText named) texts ds)
    (hvoid : ∀ d, ds = [d] → isVariadic = false → d.isVoid = false) :
    Spells named
      (lexemes (inner ++ "(" ++
        ", ".intercalate (if (texts ++ if isVariadic then ["..."] else []).isEmpty then ["void"]
          else texts ++ if isVariadic then ["..."] else []) ++ ")"))
      (.direct x (es ++ [.function (ds.map fun d => (d.name, d.type)) isVariadic])) := by
  rw [lexemes_call, ← List.cons_append, ← List.append_assoc]
  by_cases hempty : texts = [] ∧ isVariadic = false
  · obtain ⟨rfl, rfl⟩ := hempty
    cases h
    have hvoid : Specifies named ["void"] (.builtin .none .void) := .of_builtin .none .void
    exact .function hinner (.last (.declaration hvoid (.plain .abstract)))
  · have nonempty : texts ≠ [] ∨ isVariadic = true := by
      cases isVariadic <;> simp_all
    rw [if_neg (by cases texts <;> cases isVariadic <;> simp_all), ← parameters_eq_map hvoid]
    exact .function hinner (items_spell h nonempty)

end Lists

/-! ### The whole declarator -/

namespace CType

variable {named : String → DeclId → Prop} {tagOf : DeclId → String}

/-- What stands inside the declarator of the type: in front of brackets and parameters a direct
declarator, which needs no parentheses, and else any declarator. -/
def inside (c : CType) (x : String) (ds : List Derivation) : Phrase :=
  if c.isArrayOrFunction then .direct x ds else .declarator x ds

theorem inside_of_direct {ts : List Lexeme} {x : String} {ds : List Derivation} (c : CType)
    (h : Spells named ts (.direct x ds)) : Spells named ts (c.inside x ds) := by
  unfold inside
  split
  · exact h
  · exact .plain h

/-- A pointer is put into parentheses where it has to be. -/
theorem inside_of_pointer {text x : String} {ds : List Derivation} (c : CType)
    (h : Spells named (lexemes text) (.declarator x ds)) (hne : lexemes text ≠ []) :
    Spells named (lexemes (if c.isArrayOrFunction then "(" ++ text ++ ")" else text))
      (c.inside x ds) := by
  unfold inside
  split
  · rw [lexemes_group]
    exact .group h hne
  · exact h

/-- The text declares `x` with the derivations `ds` of the type `c`. -/
def SpellsAround (named : String → DeclId → Prop) (s x : String) (ds : List Derivation)
    (c : CType) : Prop :=
  ∃ base es, SpellsText named s ⟨x, base, ds ++ es⟩ ∧ es.foldr Derivation.on base = c

/-- The last derivation belongs to the type as well. -/
theorem SpellsAround.outward {s x : String} {ds : List Derivation} {e : Derivation} {c : CType}
    (h : SpellsAround named s x (ds ++ [e]) c) : SpellsAround named s x ds (e.on c) := by
  obtain ⟨base, es, hspells, htype⟩ := h
  rw [List.append_assoc] at hspells
  exact ⟨base, e :: es, hspells, by rw [List.foldr_cons, htype]⟩

/-- A type at the end of a declarator. -/
theorem spellsAround_leaf {base : CType} {ss : List String} {quals text inner x : String}
    {ds : List Derivation} (hwords : lexemes quals ++ lexemes text = ss.map .word)
    (hbase : Specifies named ss base) (h : Spells named (lexemes inner) (.declarator x ds)) :
    SpellsAround named (joinWords quals text inner) x ds base := by
  refine ⟨base, [], ?_, rfl⟩
  rw [SpellsText, lexemes_joinWords, hwords, List.append_nil]
  exact .declaration hbase h

mutual

/-- A type is read back around what it is written around. -/
theorem declarator_spells : ∀ (c : CType) (outer : Quals) (inner x : String) (ds : List Derivation),
    c.Legible named tagOf → Spells named (lexemes inner) (c.inside x ds) →
    SpellsAround named (c.declarator tagOf outer inner) x ds (c.normal outer)
  | .builtin quals kind, outer, inner, x, ds, _, h => by
    have hwords : lexemes (quals.union outer).spelling ++ lexemes kind.name =
        ((quals.union outer).words ++ kind.words).map .word := by
      rw [lexemes_spelling, kind.lexemes_name, List.map_append]
    exact spellsAround_leaf hwords (.of_builtin _ kind) h
  | .record quals decl, outer, inner, x, ds, hc, h => by
    obtain ⟨tagged, names⟩ := hc.tagged quals decl List.mem_cons_self
    have hwords : lexemes (quals.union outer).spelling ++ lexemes ("struct " ++ tagOf decl) =
        ((quals.union outer).words ++ ["struct", tagOf decl]).map .word := by
      rw [lexemes_spelling, lexemes_struct, lexemes_identifier tagged, List.map_append]
      rfl
    exact spellsAround_leaf hwords (.of_record _ tagged names) h
  | .pointer quals pointee, outer, inner, x, ds, hc, h => by
    -- The pointer is inside what follows, in parentheses if that binds tighter.
    have hstar := lexemes_star (quals.union outer).spelling inner
    have hinner := Spells.pointer (quals.union outer).isQualifier_words h
    rw [Quals.ofWords_words, List.cons_append, ← lexemes_spelling, ← hstar] at hinner
    exact (declarator_spells pointee .none _ x _ (hc.mono (List.subset_cons_self _ _))
      (inside_of_pointer pointee hinner (by rw [hstar]; exact nofun))).outward
  | .array quals element size, outer, inner, x, ds, hc, h => by
    have hinner : Spells named (lexemes (inner ++ "[" ++ size.elim "" toString ++ "]"))
        (.direct x (ds ++ [.array size])) := by
      rw [lexemes_brackets]
      cases size with
      | none => exact .array h
      | some n =>
          rw [Option.elim_some, lexemes_numeral]
          exact .sized h n
    exact (declarator_spells element (quals.union outer) _ x _ (hc.mono (List.subset_cons_self _ _))
      (inside_of_direct element hinner)).outward
  | .function quals result params isVariadic, outer, inner, x, ds, hc, h => by
    have hresult : result.within ⊆ (CType.function quals result params isVariadic).within :=
      List.subset_cons_of_subset _ (List.subset_append_left _ _)
    have hwithin : withinAll params ⊆ (CType.function quals result params isVariadic).within :=
      List.subset_cons_of_subset _ (List.subset_append_right _ _)
    obtain ⟨ps, hps, hparams⟩ := paramTexts_spell params fun c hmem =>
      hc.mono (List.Subset.trans (within_subset_withinAll hmem) hwithin)
    -- A list that is read as just `void` would come from `void` as the one parameter.
    have hvoid : ∀ d, ps = [d] → isVariadic = false → d.isVoid = false := by
      rintro d rfl rfl
      refine Bool.eq_false_iff.mpr fun hd => ?_
      have hnormals : normals params = [d.type] := by
        simpa [Function.comp_def] using congrArg (List.map Prod.snd) hparams.symm
      rw [Declaration.type_of_isVoid hd] at hnormals
      obtain rfl := eq_builtin_of_normals hnormals
      exact hc.prototyped quals result List.mem_cons_self
    have hinner := call_spells h hps hvoid
    rw [hparams] at hinner
    have htype : (Derivation.function ((normals params).map fun c => ("", c)) isVariadic).on
        (result.normal .none) = (CType.function quals result params isVariadic).normal outer := by
      simp [Derivation.on, normal, Function.comp_def]
    rw [← htype]
    exact (declarator_spells result .none _ x _ (hc.mono hresult)
      (inside_of_direct result hinner)).outward

/-- Types of parameters are read back without names. -/
theorem paramTexts_spell : ∀ cs : List CType, (∀ c ∈ cs, c.Legible named tagOf) →
    ∃ ds, List.Forall₂ (SpellsText named) (paramTexts tagOf cs) ds ∧
      ds.map (fun d => (d.name, d.type)) = (normals cs).map fun c => ("", c)
  | [], _ => ⟨[], .nil, rfl⟩
  | c :: cs, h => by
    obtain ⟨base, es, hspells, htype⟩ := declarator_spells c .none "" "" []
      (h c List.mem_cons_self) (inside_of_direct c .abstract)
    obtain ⟨ds, hds, htypes⟩ := paramTexts_spell cs fun c' hc' => h c' (List.mem_cons_of_mem c hc')
    refine ⟨⟨"", base, es⟩ :: ds, .cons hspells hds, ?_⟩
    rw [List.map_cons, htypes, normals, List.map_cons, ← htype]
    rfl

end

end CType

end Readback
