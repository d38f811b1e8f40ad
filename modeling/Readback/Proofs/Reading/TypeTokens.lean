import Readback.Proofs.Reading.Declaration
import Readback.Proofs.Reading.Munch
import Readback.Proofs.Typing.Changes

/-! # Types are cut into their tokens

The tokens of a type are those of its declarator, which is built from the name outwards as its text is.
Its text is cut into these tokens wherever it stands between blanks, commas and brackets. As with
reading a declarator back, this is shown relative to what stands inside.

* `Cuts s ts` says that the text `s` is cut into the tokens `ts` before characters that end tokens, and
  that a `*` in front of it does not go on with it: a declarator may stand behind an opening parenthesis
  or a comma, but also behind the star of a pointer.
* The parts of types are put together by one lemma each: words (`Cuts.word`, `Cuts.words`), a blank
  between two texts (`Cuts.gap`), a star (`Cuts.star`), a comma or bracket (`Cuts.parted`), and brackets
  around a text (`Cuts.enclosed`). The marks that occur between parts (`partings`) are no beginnings of
  longer marks, so they are cut off whatever follows (`Munches.mark`).
* `CType.declaratorTokens` gives the tokens of a type around the tokens of a declarator, and
  `CType.cuts_declarator` is the induction on types, along with `CType.cuts_paramTexts` for parameters.

In a program, the names of records stand in a table of declarations. The result `Tagged.cuts_typeText`
is that every type of a program whose declarations are named by identifiers is cut into its tokens
(`Program.typeTokens`). Casts are the only place in expressions where types are written. -/

namespace Readback

open Lexeme

/-! ### Parts of types -/

/-- A character that ends whatever token of a type stands before it. -/
def endsType (c : Char) : Bool := c ∈ [' ', ',', '(', ')', '[', ']']

theorem endsType_not_continues {c : Char} (h : endsType c) :
    isWordChar c = false ∧ isQuote c = false ∧ c ≠ '.' ∧ c ≠ '=' := by
  simp only [endsType, List.mem_cons, List.not_mem_nil, or_false, decide_eq_true_eq] at h
  obtain rfl | rfl | rfl | rfl | rfl | rfl := h <;> decide

/-- The text is cut into the tokens before characters that end tokens, and it does not go on with a
`*` in front of it. -/
structure Cuts (s : String) (ts : List String) : Prop where
  head : ∀ rest, rest.head? ≠ some '=' → (s.toList ++ rest).head? ≠ some '='
  munches : ∀ rest, (∀ c ∈ rest.head?, endsType c) → Munches (s.toList ++ rest) ts rest

/-- A mark that is no beginning of a longer one is cut off, whatever follows it. -/
theorem Munches.mark {m : String} (hm : m ∈ marks) (hpoint : m ≠ ".") (hlone : follows m = [])
    (s : List Char) : Munches (m.toList ++ s) [m] s :=
  .token m (.mark hm) (endsBefore_of_mark hm hpoint fun c _ => by simp [hlone]) (.done s)

/-- The marks around and between the parts of types. -/
def partings : List String := ["(", ")", "[", "]", ","]

theorem Munches.parting {m : String} (hm : m ∈ partings) (s : List Char) :
    Munches (m.toList ++ s) [m] s := by
  obtain ⟨hmark, hpoint, hlone⟩ : m ∈ marks ∧ m ≠ "." ∧ follows m = [] :=
    (by decide : ∀ m ∈ partings, m ∈ marks ∧ m ≠ "." ∧ follows m = []) m hm
  exact .mark hmark hpoint hlone s

namespace Cuts

variable {a b : String} {ts us : List String}

theorem empty : Cuts "" [] := ⟨fun _ h => h, fun rest _ => .done rest⟩

theorem eq_nil (h : Cuts "" ts) : ts = [] := (h.munches [] (by simp)).unique (.done [])

/-- What starts with another character than `=` does so whatever follows it. -/
theorem head_of_cons {s : String} {c : Char} {t : List Char} (hs : s.toList = c :: t) (hc : c ≠ '=')
    (rest : List Char) : (s.toList ++ rest).head? ≠ some '=' := by
  simpa [hs] using hc

theorem word {s : String} (h : isWord s.toList) : Cuts s [s] where
  head rest _ := by
    obtain ⟨c, t, hs, hc, -⟩ := isWord_iff.mp h
    refine head_of_cons hs ?_ rest
    rintro rfl
    simp at hc
  munches rest hrest := by
    refine .token s (.word h) (endsBefore_of_isWord h fun c hc => ?_) (.done rest)
    have hends := endsType_not_continues (hrest c hc)
    simp [continuesWord, hends]

theorem constant {s : String} (h : Constant s.toList) : Cuts s [s] where
  head rest _ := by
    obtain ⟨d, t, hs, hd⟩ := h.eq_cons
    refine head_of_cons hs ?_ rest
    rintro rfl
    cases hd
  munches rest hrest := by
    refine .token s h.isToken (h.endsBefore fun c hc => ?_) (.done rest)
    obtain ⟨hword, -, hpoint, -⟩ := endsType_not_continues (hrest c hc)
    exact ⟨hword, hpoint⟩

theorem numeral (n : Nat) : Cuts (toString n) [toString n] := by
  have hsuffix : "" ∈ integerSuffixes := by decide
  refine constant ?_
  rw [toList_numeral]
  simpa [decimalDigits] using Constant.integer (isDigits_decimalDigits n) hsuffix

theorem dots : Cuts "..." ["..."] where
  head rest _ := head_of_cons rfl (by decide) rest
  munches rest _ := .mark (by decide) (by decide) (by decide) rest

theorem blank (ha : Cuts a ts) (hb : Cuts b us) : Cuts (a ++ " " ++ b) (ts ++ us) where
  head rest h := by
    rw [String.append_assoc, String.toList_append, List.append_assoc]
    exact ha.head _ (by simp)
  munches rest hrest := by
    rw [String.toList_append, String.toList_append, List.append_assoc, List.append_assoc]
    exact (ha.munches _ (by simp [endsType])).append (.blank (hb.munches rest hrest))

/-- A blank between two texts that are there. -/
theorem gap (ha : Cuts a ts) (hb : Cuts b us) :
    Cuts (a ++ (if a.isEmpty || b.isEmpty then "" else " ") ++ b) (ts ++ us) := by
  by_cases hea : a = ""
  · subst hea
    simpa [ha.eq_nil] using hb
  · by_cases heb : b = ""
    · subst heb
      simpa [hb.eq_nil] using ha
    · rw [if_neg (by simp [hea, heb])]
      exact ha.blank hb

theorem joinWords {quals base inner : String} {qs bs is : List String} (hq : Cuts quals qs)
    (hb : Cuts base bs) (hi : Cuts inner is) :
    Cuts (CType.joinWords quals base inner) (qs ++ bs ++ is) := by
  have hlead : Cuts ((if quals.isEmpty then "" else quals ++ " ") ++ base) (qs ++ bs) := by
    by_cases he : quals = ""
    · subst he
      simpa [hq.eq_nil] using hb
    · rw [if_neg (by simpa using he)]
      exact hq.blank hb
  unfold CType.joinWords
  generalize (if quals.isEmpty then "" else quals ++ " ") ++ base = lead at hlead
  by_cases he : inner = ""
  · subst he
    simpa [hi.eq_nil] using hlead
  · rw [if_neg (by simpa using he), ← String.append_assoc]
    exact hlead.blank hi

/-- A `*` with what stands behind it. -/
theorem star (ha : Cuts a ts) : Cuts ("*" ++ a) ("*" :: ts) where
  head rest _ := by simp
  munches rest hrest := by
    have hfollows : follows "*" = ['='] := by decide
    have hhead : (a.toList ++ rest).head? ≠ some '=' :=
      ha.head rest fun hc => (endsType_not_continues (hrest '=' hc)).2.2.2 rfl
    rw [String.toList_append, List.append_assoc]
    refine .token "*" (.mark (by decide)) (endsBefore_of_mark (by decide) (by decide) ?_)
      (ha.munches rest hrest)
    rintro c hc
    rw [hfollows, List.mem_singleton]
    rintro rfl
    exact hhead hc

/-- Two texts with a comma or a bracket between them. -/
theorem parted (ha : Cuts a ts) (hb : Cuts b us) {m : String} (hm : m ∈ partings) :
    Cuts (a ++ m ++ b) (ts ++ m :: us) := by
  have hhead : ∀ s, ∀ c ∈ (m.toList ++ s).head?, endsType c := by
    simp only [partings, List.mem_cons, List.not_mem_nil, or_false] at hm
    obtain rfl | rfl | rfl | rfl | rfl := hm <;> simp [endsType]
  have htext : ∀ rest, (a ++ m ++ b).toList ++ rest = a.toList ++ (m.toList ++ (b.toList ++ rest)) := by
    simp
  refine ⟨fun rest _ => ?_, fun rest hrest => ?_⟩
  · rw [htext]
    exact ha.head _ fun h => (endsType_not_continues (hhead _ '=' h)).2.2.2 rfl
  · rw [htext]
    exact (ha.munches _ (hhead _)).append ((Munches.parting hm _).append (hb.munches rest hrest))

/-- A text between brackets, behind another one. -/
theorem enclosed (ha : Cuts a ts) (hb : Cuts b us) {l r : String} (hl : l ∈ partings)
    (hr : r ∈ partings) : Cuts (a ++ l ++ b ++ r) (ts ++ l :: (us ++ [r])) := by
  simpa using (ha.parted hb hl).parted empty hr

/-- A text in parentheses behind another one is cut into its tokens, whatever follows it. -/
theorem munches_call (ha : Cuts a ts) (hb : Cuts b us) (rest : List Char) :
    Munches ((a ++ "(" ++ b ++ ")").toList ++ rest) (ts ++ "(" :: (us ++ [")"])) rest := by
  have h := (ha.parted hb (m := "(") (by decide)).munches (')' :: rest) (by simp [endsType])
  have hclose := Munches.parting (m := ")") (by decide) rest
  simpa using h.append hclose

/-- Texts with a comma and a blank between each two. -/
theorem commas {ss : List String} {tss : List (List String)} (h : List.Forall₂ Cuts ss tss) :
    Cuts (", ".intercalate ss) ([","].intercalate tss) := by
  induction h with
  | nil => exact empty
  | @cons s ts ss tss hs hss ih =>
      cases hss with
      | nil => simpa using hs
      | @cons s' ts' ss tss =>
          have hrest := empty.blank ih
          rw [String.empty_append, List.nil_append] at hrest
          have hcomma : ", " = "," ++ " " := rfl
          rw [String.intercalate_cons_cons, List.intercalate_cons_cons]
          generalize ", ".intercalate (s' :: ss) = rest at hrest
          rw [hcomma, ← String.append_assoc, String.append_assoc, List.append_assoc]
          exact hs.parted hrest (by decide)

/-- Words with a blank between each two. -/
theorem words {ws : List String} (h : ∀ w ∈ ws, isWord w.toList) : Cuts (" ".intercalate ws) ws := by
  induction ws with
  | nil => exact empty
  | cons w ws ih =>
      rw [List.forall_mem_cons] at h
      cases ws with
      | nil => simpa using word h.1
      | cons w' ws =>
          rw [String.intercalate_cons_cons]
          exact (word h.1).blank (ih h.2)

end Cuts

/-! ### Declarators -/

theorem Quals.cuts_spelling (q : Quals) : Cuts q.spelling q.words := by
  refine .words fun w hw => ?_
  exact (by decide : ∀ w ∈ qualifierWords, isWord w.toList) w
    (by simpa [isQualifier] using q.isQualifier_words w hw)

theorem Builtin.cuts_name (k : Builtin) : Cuts k.name k.words := by
  have hname : k.name = " ".intercalate k.words := by cases k <;> rfl
  rw [hname]
  exact .words fun w hw => (by decide : ∀ w ∈ typeWords, isWord w.toList) w (k.words_subset hw)

theorem isWord_of_isIdentifier {s : String} (h : isIdentifier s) : isWord s.toList := by
  unfold isIdentifier at h
  unfold isWord
  cases hs : s.toList with
  | nil => simp [hs] at h
  | cons c rest => simp_all

/-- The texts of parameters as they stand in a list, which is never empty. -/
theorem Cuts.parameters {ss : List String} {tss : List (List String)} (h : List.Forall₂ Cuts ss tss)
    (isVariadic : Bool) :
    let list := ss ++ if isVariadic then ["..."] else []
    let tokens := tss ++ if isVariadic then [["..."]] else []
    Cuts (", ".intercalate (if list.isEmpty then ["void"] else list))
      ([","].intercalate (if tokens.isEmpty then [["void"]] else tokens)) := by
  intro list tokens
  have hlist : List.Forall₂ Cuts list tokens := by
    refine List.rel_append h ?_
    cases isVariadic with
    | true => exact .cons .dots .nil
    | false => exact .nil
  refine .commas ?_
  clear_value list tokens
  cases hlist with
  | nil => exact .cons (.word (by decide)) .nil
  | cons hs hss => exact .cons hs hss

namespace CType

mutual

/-- The tokens of a type around the tokens `inner` of a declarator, as its text is built around the
text of one. -/
def declaratorTokens (tagOf : DeclId → String) : CType → Quals → List String → List String
  | .builtin quals kind, outer, inner => (quals.union outer).words ++ kind.words ++ inner
  | .record quals decl, outer, inner => (quals.union outer).words ++ ["struct", tagOf decl] ++ inner
  | .pointer quals pointee, outer, inner =>
    let tokens := "*" :: ((quals.union outer).words ++ inner)
    declaratorTokens tagOf pointee .none
      (if pointee.isArrayOrFunction then "(" :: (tokens ++ [")"]) else tokens)
  | .array quals element size, outer, inner =>
    declaratorTokens tagOf element (quals.union outer)
      (inner ++ "[" :: (size.toList.map toString ++ ["]"]))
  | .function _ result params isVariadic, _, inner =>
    let list := paramTokens tagOf params ++ if isVariadic then [["..."]] else []
    let list := if list.isEmpty then [["void"]] else list
    declaratorTokens tagOf result .none (inner ++ "(" :: ([","].intercalate list ++ [")"]))

/-- The tokens of the types of parameters, without names. -/
def paramTokens (tagOf : DeclId → String) : List CType → List (List String)
  | [] => []
  | c :: rest => declaratorTokens tagOf c .none [] :: paramTokens tagOf rest

end

variable {tagOf : DeclId → String}

mutual

/-- A type is cut into its tokens around what it is written around. -/
theorem cuts_declarator : ∀ (c : CType) (outer : Quals) {inner : String} {ts : List String},
    (∀ quals decl, .record quals decl ∈ c.within → isIdentifier (tagOf decl)) → Cuts inner ts →
    Cuts (c.declarator tagOf outer inner) (c.declaratorTokens tagOf outer ts)
  | .builtin quals kind, outer, _, _, _, h => (quals.union outer).cuts_spelling.joinWords kind.cuts_name h
  | .record quals decl, outer, _, _, hc, h => by
    have htag : Cuts (tagOf decl) [tagOf decl] :=
      .word (isWord_of_isIdentifier (hc quals decl List.mem_cons_self))
    have hstruct : Cuts "struct" ["struct"] := .word (by decide)
    exact (quals.union outer).cuts_spelling.joinWords (hstruct.blank htag) h
  | .pointer quals pointee, outer, inner, ts, hc, h => by
    have hpointer := ((quals.union outer).cuts_spelling.gap h).star
    rw [← String.append_assoc, ← String.append_assoc] at hpointer
    rw [declarator, declaratorTokens]
    refine cuts_declarator pointee .none (fun q d hd => hc q d (List.mem_cons_of_mem _ hd)) ?_
    split
    · simpa using Cuts.empty.enclosed hpointer (l := "(") (r := ")") (by decide) (by decide)
    · exact hpointer
  | .array quals element size, outer, inner, ts, hc, h => by
    have hsize : Cuts (size.elim "" toString) (size.toList.map toString) := by
      cases size with
      | none => exact .empty
      | some n => exact .numeral n
    rw [declarator, declaratorTokens]
    exact cuts_declarator element _ (fun q d hd => hc q d (List.mem_cons_of_mem _ hd))
      (h.enclosed hsize (by decide) (by decide))
  | .function quals result params isVariadic, outer, inner, ts, hc, h => by
    have hparams := cuts_paramTexts params fun c hmem q d hd => hc q d
      (List.mem_cons_of_mem _ (List.mem_append_right _ (within_subset_withinAll hmem hd)))
    rw [declarator, declaratorTokens]
    exact cuts_declarator result .none
      (fun q d hd => hc q d (List.mem_cons_of_mem _ (List.mem_append_left _ hd)))
      (h.enclosed (.parameters hparams isVariadic) (by decide) (by decide))

theorem cuts_paramTexts : ∀ cs : List CType,
    (∀ c ∈ cs, ∀ quals decl, .record quals decl ∈ c.within → isIdentifier (tagOf decl)) →
    List.Forall₂ Cuts (paramTexts tagOf cs) (paramTokens tagOf cs)
  | [], _ => .nil
  | c :: cs, h => by
    rw [List.forall_mem_cons] at h
    exact .cons (cuts_declarator c .none h.1 .empty) (cuts_paramTexts cs h.2)

end

theorem mem_withinAll {c : CType} {cs : List CType} :
    c ∈ withinAll cs ↔ ∃ x ∈ cs, c ∈ x.within := by
  induction cs with
  | nil => simp [withinAll]
  | cons x cs ih => simp [withinAll, ih]

end CType

/-! ### Types of programs -/

/-- The records in a type stand in the table. -/
theorem TypeArena.get?_of_record_within (a : TypeArena) {quals : Quals} {decl : DeclId} :
    ∀ (n : Nat) (t : QualType), .record quals decl ∈ (a.treeAux n t).within →
      ∃ i, a.get? i = some (.record decl) := by
  intro n
  induction n with
  | zero => intro t h; simp [treeAux, CType.within] at h
  | succ n ih =>
      intro t h
      unfold treeAux at h
      cases hnode : a.node t with
      | builtin kind => simp [hnode, CType.within] at h
      | record d =>
          obtain ⟨-, rfl⟩ : quals = t.quals ∧ decl = d := by simpa [hnode, CType.within] using h
          refine ⟨t.ref, ?_⟩
          unfold node at hnode
          cases hget : a.get? t.ref <;> simp_all
      | pointer pointee =>
          exact ih pointee (by simpa [hnode, CType.within] using h)
      | array element size =>
          exact ih element (by simpa [hnode, CType.within] using h)
      | function result params isVariadic =>
          simp only [hnode, CType.within, CType.mem_withinAll, List.mem_cons, List.mem_append,
            List.mem_map] at h
          obtain ⟨⟨⟩⟩ | h | ⟨_, ⟨x, -, rfl⟩, h⟩ := h
          · exact ih result h
          · exact ih x h

namespace Program

/-- The tokens of a type. -/
def typeTokens (p : Program) (t : QualType) : List String :=
  (p.types.tree t).declaratorTokens (fun d => (p.decl d).name) .none []

/-- Every type of a program is cut into its tokens. -/
theorem Tagged.cuts_typeText {p : Program} (h : p.Tagged)
    (names : ∀ d < p.decls.size, isIdentifier (p.decl d).name) (t : QualType) :
    Cuts (p.typeText t) (p.typeTokens t) := by
  refine CType.cuts_declarator _ .none (fun quals d hd => ?_) .empty
  obtain ⟨i, hi⟩ := p.types.get?_of_record_within _ t hd
  exact names d (h i d hi)

end Program

end Readback
