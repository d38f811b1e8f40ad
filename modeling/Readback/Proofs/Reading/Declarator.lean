import Readback.Program.Types
import Readback.Proofs.Reading.Lexeme

/-! # The declarator grammar of C

Lexemes of declarations and what they declare. `Spells` is the grammar: specifiers name a base type
(`Specifies`), in a declarator `[]` and `()` bind tighter than a `*` in front, parentheses group, and
the name may be missing. What a declarator makes of the base type is a list of `Derivation`s, read
from the name outwards; `Declaration.type` is the type that results.

The grammar is unambiguous (`Spells.unique`): a sequence of lexemes declares at most one name with at
most one type, if every tag names at most one record. As for expressions, the proof reads from left to
right:

* `Scans` is a relation between what is sought, the lexemes, and what is read and left. It gives at most
  one result (`Scans.unique`).
* It gives what every derivation of the grammar declares, up to lexemes that cannot belong to it
  (`ScannedFrom`, `Spells.scans`).
* Specifiers end where no more words of a type follow (`cut_unique`, `Specifies.unique`). Where a
  parenthesis opens, the lexeme after it tells a group from a list of parameters: such a list starts
  with a word of a type or with dots, and a declarator never does (`Heads`, `Spells.not_starts`). -/

namespace Readback

/-! ### Declarations as they are read -/

/-- What one part of a declarator makes of the type around it. -/
inductive Derivation where
  | pointer (quals : Quals)
  | array (size : Option Nat)
  | function (params : List (String × CType)) (isVariadic : Bool)
deriving Inhabited

/-- The derived type. Names of parameters do not belong to it. -/
def Derivation.on : Derivation → CType → CType
  | .pointer quals, c => .pointer quals c
  | .array size, c => .array .none c size
  | .function params isVariadic, c => .function .none c (params.map Prod.snd) isVariadic

/-- A declaration as it is read: a name, which is empty if there is none, a base type, and the parts
of the declarator from the name outwards. -/
structure Declaration where
  name : String
  base : CType
  derivations : List Derivation
deriving Inhabited

namespace Declaration

/-- The declared type. -/
def type (d : Declaration) : CType := d.derivations.foldr Derivation.on d.base

/-- Whether this is `void` without qualifiers and without a name. -/
def isVoid : Declaration → Bool
  | ⟨name, .builtin quals .void, []⟩ => name.isEmpty && quals.isEmpty
  | _ => false

end Declaration

/-- The parameters that a list declares. Just `void` stands for none. -/
def parameters : List Declaration → Bool → List (String × CType)
  | [d], false => if d.isVoid then [] else [(d.name, d.type)]
  | ds, _ => ds.map fun d => (d.name, d.type)

/-! ### The grammar -/

/-- The qualifiers among the words. -/
def Quals.ofWords (ss : List String) : Quals :=
  ⟨decide ("const" ∈ ss), decide ("volatile" ∈ ss), decide ("restrict" ∈ ss)⟩

/-- `Specifies named ss c`: the words `ss` name the type `c`. Qualifiers stand anywhere but inside
the name of a record; `named` says which records have which names. -/
inductive Specifies (named : String → DeclId → Prop) : List String → CType → Prop where
  | builtin {ss} (kind : Builtin) (words : ss.filter (!isQualifier ·) = kind.words) :
      Specifies named ss (.builtin (.ofWords ss) kind)
  | record {before after tag decl} (tagged : isIdentifier tag = true) (names : named tag decl)
      (leading : ∀ s ∈ before, isQualifier s = true)
      (trailing : ∀ s ∈ after, isQualifier s = true) :
      Specifies named (before ++ "struct" :: tag :: after)
        (.record (.ofWords (before ++ after)) decl)

/-- What a sequence of lexemes spells. -/
inductive Phrase where
  | direct (name : String) (derivations : List Derivation)
  | suffixes (derivations : List Derivation)
  | declarator (name : String) (derivations : List Derivation)
  | declaration (d : Declaration)
  | items (ds : List Declaration) (isVariadic : Bool)

/-- Whether a declarator is spelled. -/
def Phrase.isDeclarator : Phrase → Bool
  | .direct _ _ => true
  | .declarator _ _ => true
  | _ => false

/-- `Spells named ts φ`: the lexemes `ts` form the phrase `φ`. -/
inductive Spells (named : String → DeclId → Prop) : List Lexeme → Phrase → Prop where
  | abstract : Spells named [] (.direct "" [])
  | name {x} (identifier : isIdentifier x = true) : Spells named [.word x] (.direct x [])
  | group {ts x ds} (inner : Spells named ts (.declarator x ds)) (nonempty : ts ≠ []) :
      Spells named (.lparen :: ts ++ [.rparen]) (.direct x ds)
  | array {ts x ds} (inner : Spells named ts (.direct x ds)) :
      Spells named (ts ++ [.lbracket, .rbracket]) (.direct x (ds ++ [.array none]))
  | sized {ts x ds} (inner : Spells named ts (.direct x ds)) (size : Nat) :
      Spells named (ts ++ [.lbracket, .word (toString size), .rbracket])
        (.direct x (ds ++ [.array (some size)]))
  | function {ts us x ds items isVariadic} (inner : Spells named ts (.direct x ds))
      (list : Spells named us (.items items isVariadic)) :
      Spells named (ts ++ .lparen :: us ++ [.rparen])
        (.direct x (ds ++ [.function (parameters items isVariadic) isVariadic]))
  | plain {ts x ds} (inner : Spells named ts (.direct x ds)) : Spells named ts (.declarator x ds)
  | pointer {qs ts x ds} (quals : ∀ s ∈ qs, isQualifier s = true)
      (inner : Spells named ts (.declarator x ds)) :
      Spells named (.star :: qs.map .word ++ ts) (.declarator x (ds ++ [.pointer (.ofWords qs)]))
  | declaration {ss base ts x ds} (specifiers : Specifies named ss base)
      (declarator : Spells named ts (.declarator x ds)) :
      Spells named (ss.map .word ++ ts) (.declaration ⟨x, base, ds⟩)
  | ellipsis : Spells named [.dot, .dot, .dot] (.items [] true)
  | last {ts d} (item : Spells named ts (.declaration d)) : Spells named ts (.items [d] false)
  | more {ts us d ds isVariadic} (item : Spells named ts (.declaration d))
      (others : Spells named us (.items ds isVariadic)) :
      Spells named (ts ++ .comma :: us) (.items (d :: ds) isVariadic)

/-! ### Where words end -/

/-- A word with the property comes first. -/
def Starts (p : String → Bool) (ts : List Lexeme) : Prop := ∃ x us, ts = .word x :: us ∧ p x = true

/-- There is one way to cut after the words with a property. -/
theorem cut_unique {p : String → Bool} {xs ys : List String} {ts us : List Lexeme}
    (hxs : ∀ x ∈ xs, p x = true) (hys : ∀ y ∈ ys, p y = true) (hts : ¬ Starts p ts)
    (hus : ¬ Starts p us) (h : xs.map .word ++ ts = ys.map .word ++ us) : xs = ys ∧ ts = us := by
  induction xs generalizing ys with
  | nil =>
      cases ys with
      | nil => exact ⟨rfl, h⟩
      | cons y ys => exact absurd ⟨y, _, h, hys y List.mem_cons_self⟩ hts
  | cons x xs ih =>
      cases ys with
      | nil => exact absurd ⟨x, _, h.symm, hxs x List.mem_cons_self⟩ hus
      | cons y ys =>
          rw [List.forall_mem_cons] at hxs hys
          simp only [List.map_cons, List.cons_append, List.cons.injEq, Lexeme.word.injEq] at h
          obtain ⟨rfl, rfl⟩ := ih hxs.2 hys.2 h.2
          exact ⟨by rw [h.1], rfl⟩

theorem Starts.mono {p q : String → Bool} (hpq : ∀ x, p x = true → q x = true) {ts : List Lexeme}
    (h : Starts p ts) : Starts q ts :=
  let ⟨x, us, hts, hx⟩ := h
  ⟨x, us, hts, hpq x hx⟩

theorem Starts.of_plainWord {ts : List Lexeme} (h : Starts isPlainWord ts) : Starts isReserved ts :=
  h.mono fun _ => isReserved_of_isPlainWord

theorem Starts.of_qualifier {ts : List Lexeme} (h : Starts isQualifier ts) : Starts isReserved ts :=
  (h.mono fun _ => isPlainWord_of_isQualifier).of_plainWord

theorem not_starts_struct {p : String → Bool} (h : p "struct" = false) (ts : List Lexeme) :
    ¬ Starts p (.word "struct" :: ts) := by
  rintro ⟨_, _, ⟨⟩, hx⟩
  rw [h] at hx
  cases hx

namespace Specifies

variable {named : String → DeclId → Prop} {ss ss' : List String} {c c' : CType}

theorem plainWords {kind : Builtin} (words : ss.filter (!isQualifier ·) = kind.words) :
    ∀ s ∈ ss, isPlainWord s = true := by
  intro s hs
  cases hq : isQualifier s with
  | true => exact isPlainWord_of_isQualifier hq
  | false =>
      have hmem : s ∈ kind.words := words ▸ List.mem_filter.mpr ⟨hs, by simpa using hq⟩
      simp [isPlainWord, kind.words_subset hmem]

/-- Specifiers start with a word of a type. -/
theorem starts (h : Specifies named ss c) (ts : List Lexeme) :
    Starts isReserved (ss.map .word ++ ts) := by
  cases h with
  | builtin kind words =>
      cases ss with
      | nil => exact absurd words.symm kind.words_ne_nil
      | cons s ss =>
          exact ⟨s, _, rfl, isReserved_of_isPlainWord (plainWords words s List.mem_cons_self)⟩
  | @record before after tag decl tagged names leading trailing =>
      cases before with
      | nil => exact ⟨"struct", _, rfl, rfl⟩
      | cons s ss =>
          exact ⟨s, _, rfl, isReserved_of_isPlainWord
            (isPlainWord_of_isQualifier (leading s List.mem_cons_self))⟩

/-- The name of a builtin type is not taken for that of a record. -/
theorem builtin_ne_record {kind : Builtin} (words : ss.filter (!isQualifier ·) = kind.words)
    {ts us : List Lexeme} (hts : ¬ Starts isReserved ts) {before : List String}
    (leading : ∀ s ∈ before, isQualifier s = true) :
    ss.map .word ++ ts ≠ before.map .word ++ .word "struct" :: us := by
  intro heq
  have hcut := cut_unique (plainWords words) (fun s hs => isPlainWord_of_isQualifier (leading s hs))
    (mt Starts.of_plainWord hts) (not_starts_struct rfl us) heq
  exact hts ⟨"struct", us, hcut.2, rfl⟩

/-- The words of specifiers do not go on after them, and they name one type. -/
theorem unique (hnamed : ∀ s d d', named s d → named s d' → d = d') (h : Specifies named ss c)
    (h' : Specifies named ss' c') {ts ts' : List Lexeme} (hts : ¬ Starts isReserved ts)
    (hts' : ¬ Starts isReserved ts') (heq : ss.map .word ++ ts = ss'.map .word ++ ts') :
    c = c' ∧ ts = ts' := by
  cases h with
  | builtin kind words =>
      cases h' with
      | builtin kind' words' =>
          obtain ⟨rfl, rfl⟩ := cut_unique (plainWords words) (plainWords words')
            (mt Starts.of_plainWord hts) (mt Starts.of_plainWord hts') heq
          rw [Builtin.eq_of_words_eq (words.symm.trans words')]
          exact ⟨rfl, rfl⟩
      | record tagged names leading trailing =>
          rw [List.map_append, List.append_assoc] at heq
          exact absurd heq (builtin_ne_record words hts leading)
  | @record before after tag decl tagged names leading trailing =>
      rw [List.map_append, List.append_assoc] at heq
      cases h' with
      | builtin kind words =>
          exact absurd heq.symm (builtin_ne_record words hts' leading)
      | @record before' after' tag' decl' tagged' names' leading' trailing' =>
          rw [List.map_append, List.append_assoc] at heq
          obtain ⟨rfl, hrest⟩ := cut_unique leading leading' (not_starts_struct rfl _)
            (not_starts_struct rfl _) heq
          obtain ⟨rfl, hafter⟩ : tag = tag' ∧ after.map .word ++ ts = after'.map .word ++ ts' := by
            simpa using hrest
          obtain ⟨rfl, rfl⟩ := cut_unique trailing trailing' (mt Starts.of_qualifier hts)
            (mt Starts.of_qualifier hts') hafter
          rw [hnamed _ _ _ names names']
          exact ⟨rfl, rfl⟩

end Specifies

/-! ### Reading from left to right -/

/-- Whether a declarator that is not empty can start with the lexeme. -/
def Lexeme.opens : Lexeme → Bool
  | .word x => isIdentifier x
  | .star => true
  | .lparen => true
  | .lbracket => true
  | _ => false

/-- A declarator that is not empty comes first. -/
def Opens (ts : List Lexeme) : Prop := ∃ t us, ts = t :: us ∧ t.opens = true

/-- A declarator comes first that has a pointer, a name or a group. -/
def Heads : List Lexeme → Prop
  | .word x :: _ => isIdentifier x = true
  | .star :: _ => True
  | .lparen :: ts => Opens ts
  | _ => False

/-- What can follow a declarator. -/
def Ends : List Lexeme → Prop
  | [] => True
  | .rparen :: _ => True
  | .comma :: _ => True
  | _ => False

/-- What is to be read. -/
inductive Sought where
  | declarator
  | suffixes
  | declaration
  | items

/-- `Scans named sought ts φ rest`: reading `ts` gives the phrase `φ` and leaves `rest`. -/
inductive Scans (named : String → DeclId → Prop) :
    Sought → List Lexeme → Phrase → List Lexeme → Prop where
  | pointer {ts qs us x ds rest} (quals : ∀ s ∈ qs, isQualifier s = true)
      (split : ts = qs.map .word ++ us) (stops : ¬ Starts isReserved us)
      (inner : Scans named .declarator us (.declarator x ds) rest) :
      Scans named .declarator (.star :: ts) (.declarator x (ds ++ [.pointer (.ofWords qs)])) rest
  | name {x ts es rest} (identifier : isIdentifier x = true)
      (more : Scans named .suffixes ts (.suffixes es) rest) :
      Scans named .declarator (.word x :: ts) (.declarator x es) rest
  | group {ts us x ds es rest} (opens : Opens ts)
      (inner : Scans named .declarator ts (.declarator x ds) (.rparen :: us))
      (more : Scans named .suffixes us (.suffixes es) rest) :
      Scans named .declarator (.lparen :: ts) (.declarator x (ds ++ es)) rest
  | abstract {ts es rest} (headless : ¬ Heads ts)
      (more : Scans named .suffixes ts (.suffixes es) rest) :
      Scans named .declarator ts (.declarator "" es) rest
  | array {ts es rest} (more : Scans named .suffixes ts (.suffixes es) rest) :
      Scans named .suffixes (.lbracket :: .rbracket :: ts) (.suffixes (.array none :: es)) rest
  | sized {s ts es rest} (size : Nat) (numeral : s = toString size)
      (more : Scans named .suffixes ts (.suffixes es) rest) :
      Scans named .suffixes (.lbracket :: .word s :: .rbracket :: ts)
        (.suffixes (.array (some size) :: es)) rest
  | function {ts us items isVariadic es rest}
      (list : Scans named .items ts (.items items isVariadic) (.rparen :: us))
      (more : Scans named .suffixes us (.suffixes es) rest) :
      Scans named .suffixes (.lparen :: ts)
        (.suffixes (.function (parameters items isVariadic) isVariadic :: es)) rest
  | stop {rest} (ends : Ends rest) : Scans named .suffixes rest (.suffixes []) rest
  | declaration {ts ss base us x ds rest} (specifiers : Specifies named ss base)
      (split : ts = ss.map .word ++ us) (stops : ¬ Starts isReserved us)
      (declarator : Scans named .declarator us (.declarator x ds) rest) :
      Scans named .declaration ts (.declaration ⟨x, base, ds⟩) rest
  | ellipsis {rest} : Scans named .items (.dot :: .dot :: .dot :: rest) (.items [] true) rest
  | last {ts d rest} (item : Scans named .declaration ts (.declaration d) (.rparen :: rest)) :
      Scans named .items ts (.items [d] false) (.rparen :: rest)
  | more {ts us d ds isVariadic rest}
      (item : Scans named .declaration ts (.declaration d) (.comma :: us))
      (others : Scans named .items us (.items ds isVariadic) rest) :
      Scans named .items ts (.items (d :: ds) isVariadic) rest

namespace Scans

variable {named : String → DeclId → Prop} {sought : Sought} {ts rest rest' : List Lexeme}
  {φ φ' : Phrase}

theorem starts (h : Scans named .declaration ts φ rest) : Starts isReserved ts := by
  cases h with
  | declaration specifiers split _ _ =>
      rw [split]
      exact specifiers.starts _

theorem not_dot {us : List Lexeme} : ¬ Scans named .declaration (.dot :: us) φ rest := by
  intro h
  obtain ⟨_, _, ⟨⟩, _⟩ := h.starts

/-- Reading gives at most one result. -/
theorem unique (hnamed : ∀ s d d', named s d → named s d' → d = d')
    (h : Scans named sought ts φ rest) (h' : Scans named sought ts φ' rest') :
    φ = φ' ∧ rest = rest' := by
  -- The lexemes at the start decide the rule, and an item of a list ends where its rule says.
  induction h generalizing φ' rest' with
  | pointer quals split stops _ ih => cases h' with
    | pointer quals' split' stops' inner' =>
        obtain ⟨rfl, rfl⟩ := cut_unique quals quals' (mt Starts.of_qualifier stops)
          (mt Starts.of_qualifier stops') (split.symm.trans split')
        obtain ⟨⟨⟩, rfl⟩ := ih inner'
        exact ⟨rfl, rfl⟩
    | abstract headless => exact absurd trivial headless
  | name identifier _ ih => cases h' with
    | name _ more =>
        obtain ⟨⟨⟩, rfl⟩ := ih more
        exact ⟨rfl, rfl⟩
    | abstract headless => exact absurd identifier headless
  | group opens _ _ ihi ihm => cases h' with
    | group _ inner more =>
        obtain ⟨⟨⟩, ⟨⟩⟩ := ihi inner
        obtain ⟨⟨⟩, rfl⟩ := ihm more
        exact ⟨rfl, rfl⟩
    | abstract headless => exact absurd opens headless
  | abstract headless _ ih => cases h' with
    | pointer => exact absurd trivial headless
    | name identifier => exact absurd identifier headless
    | group opens => exact absurd opens headless
    | abstract _ more =>
        obtain ⟨⟨⟩, rfl⟩ := ih more
        exact ⟨rfl, rfl⟩
  | array _ ih => cases h' with
    | array more =>
        obtain ⟨⟨⟩, rfl⟩ := ih more
        exact ⟨rfl, rfl⟩
    | stop ends => exact ends.elim
  | sized size numeral _ ih => cases h' with
    | sized size' numeral' more =>
        obtain rfl := numeral_injective (numeral.symm.trans numeral')
        obtain ⟨⟨⟩, rfl⟩ := ih more
        exact ⟨rfl, rfl⟩
    | stop ends => exact ends.elim
  | function _ _ ihl ihm => cases h' with
    | function list more =>
        obtain ⟨⟨⟩, ⟨⟩⟩ := ihl list
        obtain ⟨⟨⟩, rfl⟩ := ihm more
        exact ⟨rfl, rfl⟩
    | stop ends => exact ends.elim
  | stop ends => cases h' with
    | array => exact ends.elim
    | sized => exact ends.elim
    | function => exact ends.elim
    | stop => exact ⟨rfl, rfl⟩
  | declaration specifiers split stops _ ih => cases h' with
    | declaration specifiers' split' stops' declarator =>
        obtain ⟨rfl, rfl⟩ :=
          specifiers.unique hnamed specifiers' stops stops' (split.symm.trans split')
        obtain ⟨⟨⟩, rfl⟩ := ih declarator
        exact ⟨rfl, rfl⟩
  | ellipsis => cases h' with
    | ellipsis => exact ⟨rfl, rfl⟩
    | last item => exact absurd item not_dot
    | more item => exact absurd item not_dot
  | last item ih => cases h' with
    | ellipsis => exact absurd item not_dot
    | last item' =>
        obtain ⟨⟨⟩, ⟨⟩⟩ := ih item'
        exact ⟨rfl, rfl⟩
    | more item' =>
        obtain ⟨_, ⟨⟩⟩ := ih item'
  | more item _ ihi iho => cases h' with
    | ellipsis => exact absurd item not_dot
    | last item' =>
        obtain ⟨_, ⟨⟩⟩ := ihi item'
    | more item' others =>
        obtain ⟨⟨⟩, ⟨⟩⟩ := ihi item'
        obtain ⟨⟨⟩, rfl⟩ := iho others
        exact ⟨rfl, rfl⟩

/-- What follows the name of a declarator does not start like a declarator with a name. -/
theorem headless (h : Scans named .suffixes ts φ rest) : ¬ Heads ts := by
  cases h with
  | array => exact id
  | sized => exact id
  | stop ends =>
      intro h
      unfold Heads at h
      split at h
      · exact ends
      · exact ends
      · exact ends
      · exact h
  | function list more =>
      rintro ⟨t, us, rfl, ht⟩
      have hword : Starts isReserved (t :: us) → False := by
        rintro ⟨x, vs, ⟨⟩, hx⟩
        rw [not_isReserved_of_isIdentifier ht] at hx
        cases hx
      cases list with
      | ellipsis => cases ht
      | last item => exact hword item.starts
      | more item => exact hword item.starts

end Scans

/-! ### Every derivation is read -/

namespace Spells

variable {named : String → DeclId → Prop} {ts : List Lexeme} {φ : Phrase}

/-- A declarator is empty or starts with a lexeme of its own. -/
theorem opens (h : Spells named ts φ) (hφ : φ.isDeclarator = true) : ts = [] ∨ Opens ts := by
  have suffixed : ∀ {ts : List Lexeme} (t : Lexeme) (us : List Lexeme), t.opens = true →
      ts = [] ∨ Opens ts → ts ++ t :: us = [] ∨ Opens (ts ++ t :: us) := by
    rintro ts t us ht (rfl | ⟨t', ts', rfl, ht'⟩)
    · exact .inr ⟨t, us, rfl, ht⟩
    · exact .inr ⟨t', ts' ++ t :: us, rfl, ht'⟩
  induction h with
  | abstract => exact .inl rfl
  | name identifier => exact .inr ⟨_, _, rfl, identifier⟩
  | group => exact .inr ⟨_, _, rfl, rfl⟩
  | array _ ih => exact suffixed _ _ rfl (ih rfl)
  | sized _ _ ih => exact suffixed _ _ rfl (ih rfl)
  | function _ _ ih _ =>
      rw [List.append_assoc]
      exact suffixed _ _ rfl (ih rfl)
  | plain _ ih => exact ih rfl
  | pointer => exact .inr ⟨_, _, rfl, rfl⟩
  | declaration => cases hφ
  | ellipsis => cases hφ
  | last => cases hφ
  | more => cases hφ

/-- A declarator does not start with a word of a type, whatever follows it. -/
theorem not_starts (h : Spells named ts φ) (hφ : φ.isDeclarator = true) {rest : List Lexeme}
    (ends : Ends rest) : ¬ Starts isReserved (ts ++ rest) := by
  rintro ⟨x, us, heq, hx⟩
  obtain rfl | ⟨t, ts', rfl, ht⟩ := h.opens hφ
  · rw [show rest = _ from heq] at ends
    exact ends
  · obtain ⟨rfl, -⟩ := List.cons.inj heq
    rw [not_isReserved_of_isIdentifier ht] at hx
    cases hx

/-- The phrase is read from `ts`, whatever follows, if what follows cannot continue it. -/
def ScannedFrom (named : String → DeclId → Prop) (ts : List Lexeme) : Phrase → Prop
  | .direct x ds => ∀ es us rest, Scans named .suffixes us (.suffixes es) rest →
      Scans named .declarator (ts ++ us) (.declarator x (ds ++ es)) rest
  | .declarator x ds => ∀ rest, Ends rest →
      Scans named .declarator (ts ++ rest) (.declarator x ds) rest
  | .declaration d => ∀ rest, Ends rest →
      Scans named .declaration (ts ++ rest) (.declaration d) rest
  | .items ds isVariadic => ∀ us,
      Scans named .items (ts ++ .rparen :: us) (.items ds isVariadic) (.rparen :: us)
  | .suffixes _ => True

/-- Reading gives what the grammar derives. The suffixes of a direct declarator are derived from the
left and read to the right, so reading one of them goes on with those that follow it. -/
theorem scans (h : Spells named ts φ) : ScannedFrom named ts φ := by
  induction h with
  | abstract => exact fun es us rest more => .abstract more.headless more
  | name identifier => exact fun es us rest more => .name identifier more
  | @group ts x ds inner nonempty ih =>
      intro es us rest more
      have opens : Opens (ts ++ .rparen :: us) := by
        obtain rfl | ⟨t, ts', rfl, ht⟩ := inner.opens rfl
        · exact absurd rfl nonempty
        · exact ⟨t, _, rfl, ht⟩
      simpa using Scans.group opens (ih (.rparen :: us) trivial) more
  | array _ ih =>
      intro es us rest more
      simpa using ih _ _ _ (.array more)
  | sized _ size ih =>
      intro es us rest more
      simpa using ih _ _ _ (.sized size rfl more)
  | function _ _ ih ihl =>
      intro es us rest more
      simpa using ih _ _ _ (.function (ihl us) more)
  | plain _ ih =>
      intro rest ends
      simpa using ih _ _ _ (.stop ends)
  | pointer quals inner ih =>
      intro rest ends
      exact .pointer quals (List.append_assoc ..) (inner.not_starts rfl ends) (ih rest ends)
  | declaration specifiers declarator ih =>
      intro rest ends
      exact .declaration specifiers (List.append_assoc ..) (declarator.not_starts rfl ends)
        (ih rest ends)
  | ellipsis => exact fun us => .ellipsis
  | last _ ih => exact fun us => .last (ih _ trivial)
  | more _ _ ihi iho =>
      intro us
      rw [List.append_assoc]
      exact .more (ihi _ trivial) (iho us)

/-- **The declarator grammar is unambiguous.** -/
theorem unique (hnamed : ∀ s d d', named s d → named s d' → d = d') {d d' : Declaration}
    (h : Spells named ts (.declaration d)) (h' : Spells named ts (.declaration d')) : d = d' := by
  obtain ⟨⟨⟩, -⟩ := (h.scans [] trivial).unique hnamed (h'.scans [] trivial)
  rfl

end Spells

end Readback
