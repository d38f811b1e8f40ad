import Readback.Proofs.Number.Constant

/-! # Cutting text into the tokens of C

C text is cut into tokens from the left, each as long as possible. `Munches s ts rest` says that this
cuts the tokens `ts` off the front of `s` and leaves `rest`; blanks separate tokens and are dropped.

* `IsToken` lists the tokens: words, numbers in the sense of the preprocessor (`isNumber`, which allows
  more than the constants of C), characters and texts between quotes, and marks. The marks that open a
  comment are among them, so that a text in which a comment would begin is not cut into what was meant.
* `EndsBefore t rest` says that no beginning of `rest` makes a longer token of `t`; it is what "as long
  as possible" comes to. A text is cut into tokens in one way at most (`Munches.unique`): two tokens at
  its front, each ending where it does not go on, are the same (`EndsBefore.eq_of_append`).
* What a token is can be told from its first character (`IsToken.shape`).

Where a token ends is a matter of the tokens that begin with it and the next character
(`endsBefore_cons`). The last section decides it for each sort of token. A word goes on with word
characters, and may turn out to be the lead of a literal (`endsBefore_of_isWord`). A number goes on with
points and some signs too (`endsBefore_of_digit`): after an `e`, a sign would be part of it, which
matters for constants in front of an operator. A mark goes on with what makes it a longer mark
(`endsBefore_of_mark`), and nothing goes on with a literal behind its closing quote
(`endsBefore_of_quoteTail`). -/

namespace Readback

open Lexeme

/-! ### Tokens -/

/-- The punctuators of C, and the two that open a comment. -/
def marks : List String :=
  ["[", "]", "(", ")", "\x7b", "\x7d", ".", "->", "++", "--", "&", "*", "+", "-", "~", "!", "/", "%",
    "<<", ">>", "<", ">", "<=", ">=", "==", "!=", "^", "|", "&&", "||", "?", ":", ";", "...", "=",
    "*=", "/=", "%=", "+=", "-=", "<<=", ">>=", "&=", "^=", "|=", ",", "#", "##", "<:", ":>", "<%",
    "%>", "%:", "%:%:", "/*", "//"]

/-- Whether the characters form an identifier or a keyword. -/
def isWord : List Char → Bool
  | [] => false
  | c :: rest => (c.isAlpha || c == '_') && rest.all isWordChar

/-- Whether a character goes on with a number after another character of it. -/
def continuesNumber (last c : Char) : Bool :=
  isWordChar c || c == '.' || (c == '+' || c == '-') && last ∈ ['e', 'E', 'p', 'P']

/-- Whether the characters go on with a number of which the last character is given. -/
def numberTail : Char → List Char → Bool
  | _, [] => true
  | last, c :: rest => continuesNumber last c && numberTail c rest

/-- Whether the characters form a preprocessing number. -/
def isNumber : List Char → Bool
  | '.' :: c :: rest => c.isDigit && numberTail c rest
  | c :: rest => c.isDigit && numberTail c rest
  | [] => false

/-- Whether the characters go on with a literal to the closing quote and end there. -/
def quoteTail (quote : Char) : List Char → Bool
  | [] => false
  | '\\' :: _ :: rest => quoteTail quote rest
  | c :: rest => if c == quote then rest.isEmpty else c != '\n' && quoteTail quote rest

/-- What may stand in front of the quote of a literal. -/
def leads : List String := ["", "L", "u", "U", "u8"]

/-- Whether the character opens a literal. -/
def isQuote (c : Char) : Bool := c == '"' || c == '\''

/-- A token of C. -/
inductive IsToken : List Char → Prop where
  | word {s : List Char} (h : isWord s) : IsToken s
  | number {s : List Char} (h : isNumber s) : IsToken s
  | quoted {lead : String} (hlead : lead ∈ leads) {quote : Char} (hquote : isQuote quote)
      {s : List Char} (hs : quoteTail quote s) : IsToken (lead.toList ++ quote :: s)
  | mark {m : String} (h : m ∈ marks) : IsToken m.toList

/-- No beginning of `rest` makes a longer token of `t`. -/
def EndsBefore (t rest : List Char) : Prop :=
  ∀ more, more ≠ [] → more <+: rest → ¬ IsToken (t ++ more)

/-- Cutting tokens, each as long as possible, off the front of a text leaves the rest of it. Blanks
separate tokens. -/
inductive Munches : List Char → List String → List Char → Prop where
  | done (rest : List Char) : Munches rest [] rest
  | blank {s rest : List Char} {ts : List String} (h : Munches s ts rest) :
      Munches (' ' :: s) ts rest
  | token (t : String) {s rest : List Char} {ts : List String} (ht : IsToken t.toList)
      (ends : EndsBefore t.toList s) (h : Munches s ts rest) : Munches (t.toList ++ s) (t :: ts) rest

theorem Munches.append {s mid rest : List Char} {ts us : List String} (h : Munches s ts mid)
    (h' : Munches mid us rest) : Munches s (ts ++ us) rest := by
  induction h with
  | done => exact h'
  | blank _ ih => exact .blank (ih h')
  | token t ht ends _ ih => exact .token t ht ends (ih h')

/-! ### First characters -/

theorem isWord_iff {s : List Char} :
    isWord s ↔ ∃ c rest, s = c :: rest ∧ (c.isAlpha ∨ c = '_') ∧ ∀ d ∈ rest, isWordChar d := by
  cases s <;> simp [isWord, and_assoc]

theorem isWordChar_of_letter {c : Char} (h : c.isAlpha ∨ c = '_') : isWordChar c := by
  obtain h | rfl := h
  · simp [isWordChar, Char.isAlphanum, h]
  · rfl

theorem isWordChar_of_isWord {s : List Char} (h : isWord s) : ∀ c ∈ s, isWordChar c := by
  obtain ⟨c, rest, rfl, hc, hrest⟩ := isWord_iff.mp h
  rintro d (_ | ⟨_, hd⟩)
  · exact isWordChar_of_letter hc
  · exact hrest d hd

theorem not_isDigit_of_letter {c : Char} (h : c.isAlpha ∨ c = '_') : c.isDigit = false := by
  obtain h | rfl := h
  · -- The letters stand behind the digits.
    have hval : 65 ≤ c.val := by
      obtain hupper | hlower := Bool.or_eq_true_iff.mp h
      · exact (of_decide_eq_true hupper).1
      · have h97 : 97 ≤ c.val := of_decide_eq_true (Bool.and_eq_true_iff.mp hlower).1
        exact UInt32.le_trans (by decide) h97
    have h57 : ¬ c.val ≤ 57 := fun hle => absurd (UInt32.le_trans hval hle) (by decide)
    simp [Char.isDigit, h57]
  · rfl

theorem isWordChar_of_isQuote {c : Char} (h : isQuote c) : isWordChar c = false := by
  obtain rfl | rfl : c = '"' ∨ c = '\'' := by simpa [isQuote] using h
  · rfl
  · rfl

/-- What a token is, by its first character. -/
inductive TokenShape (c : Char) (s : List Char) : Prop where
  | letter (hc : c.isAlpha ∨ c = '_') (h : (∀ d ∈ s, isWordChar d) ∨ ∃ lead quote t,
      c :: s = lead ++ quote :: t ∧ (∀ d ∈ lead, isWordChar d) ∧ isQuote quote)
  | digit (hc : c.isDigit) (h : numberTail c s)
  | quote (hc : isQuote c) (h : quoteTail c s)
  | point (hc : c = '.') (h : s.head?.any Char.isDigit)
  | mark (hc : isWordChar c = false ∧ isQuote c = false ∧ c ≠ ' ')
      (h : ∃ m ∈ marks, c :: s = m.toList)

/-- A token is not empty, and its first character tells what it is. -/
theorem IsToken.shape {s : List Char} (h : IsToken s) : ∃ c t, s = c :: t ∧ TokenShape c t := by
  cases h with
  | word h =>
      obtain ⟨c, t, rfl, hc, hall⟩ := isWord_iff.mp h
      exact ⟨c, t, rfl, .letter hc (.inl hall)⟩
  | number h =>
      unfold isNumber at h
      split at h
      · next c t =>
          exact ⟨'.', c :: t, rfl, .point rfl (Bool.and_eq_true_iff.mp h).1⟩
      · next c t _ =>
          obtain ⟨hc, ht⟩ := Bool.and_eq_true_iff.mp h
          exact ⟨c, t, rfl, .digit hc ht⟩
      · cases h
  | @quoted lead hlead quote hquote t ht =>
      have hleads : ∀ lead ∈ leads, lead = "" ∨ isWord lead.toList := by decide
      obtain rfl | hword := hleads lead hlead
      · exact ⟨quote, t, rfl, .quote hquote ht⟩
      · obtain ⟨c, rest, heq, hc, -⟩ := isWord_iff.mp hword
        refine ⟨c, rest ++ quote :: t, by rw [heq, List.cons_append], .letter hc (.inr ?_)⟩
        exact ⟨lead.toList, quote, t, by rw [heq, List.cons_append], isWordChar_of_isWord hword,
          hquote⟩
  | @mark m hm =>
      have hmarks : ∀ m ∈ marks, m.toList ≠ [] ∧
          m.toList.head?.all fun c => !isWordChar c && !isQuote c && c != ' ' := by decide
      obtain ⟨hne, hhead⟩ := hmarks m hm
      cases heq : m.toList with
      | nil => exact absurd heq hne
      | cons c t =>
          refine ⟨c, t, rfl, .mark ?_ ⟨m, hm, heq.symm⟩⟩
          simpa [heq, and_assoc] using hhead

/-- Whether the characters begin a mark and nothing else. -/
def opensMark : List Char → Bool
  | [] => false
  | '.' :: c :: _ => !c.isDigit
  | c :: _ => c != '.' && !isWordChar c && !isQuote c

theorem opensMark_of_mem : ∀ m ∈ marks, m ≠ "." → opensMark m.toList := by decide

namespace IsToken

variable {c : Char} {s : List Char}

theorem ne_blank (h : IsToken (c :: s)) : c ≠ ' ' := by
  obtain ⟨_, _, ⟨⟩, hshape⟩ := h.shape
  cases hshape with
  | mark hc => exact hc.2.2
  | letter hc | digit hc | quote hc | point hc => rintro rfl; revert hc; decide

theorem head (h : IsToken s) : ∃ c rest, s = c :: rest ∧ c ≠ ' ' := by
  obtain ⟨c, rest, rfl, -⟩ := h.shape
  exact ⟨c, rest, rfl, h.ne_blank⟩

theorem of_letter (h : IsToken (c :: s)) (hc : c.isAlpha ∨ c = '_') :
    (∀ d ∈ s, isWordChar d) ∨ ∃ lead quote t,
      c :: s = lead ++ quote :: t ∧ (∀ d ∈ lead, isWordChar d) ∧ isQuote quote := by
  obtain ⟨_, _, ⟨⟩, hshape⟩ := h.shape
  have hword := isWordChar_of_letter hc
  cases hshape with
  | letter _ h => exact h
  | digit hd => simp [not_isDigit_of_letter hc] at hd
  | quote hq => simp [isWordChar_of_isQuote hq] at hword
  | point hp => simp [hp, isWordChar] at hword
  | mark hm => simp [hm.1] at hword

theorem of_digit (h : IsToken (c :: s)) (hc : c.isDigit) : numberTail c s := by
  obtain ⟨_, _, ⟨⟩, hshape⟩ := h.shape
  have hword := isWordChar_of_isDigit hc
  cases hshape with
  | letter hl => simp [not_isDigit_of_letter hl] at hc
  | digit _ h => exact h
  | quote hq => simp [isWordChar_of_isQuote hq] at hword
  | point hp => simp [hp] at hc
  | mark hm => simp [hm.1] at hword

theorem of_quote (h : IsToken (c :: s)) (hc : isQuote c) : quoteTail c s := by
  obtain ⟨_, _, ⟨⟩, hshape⟩ := h.shape
  have hword := isWordChar_of_isQuote hc
  cases hshape with
  | letter hl => simp [isWordChar_of_letter hl] at hword
  | digit hd => simp [isWordChar_of_isDigit hd] at hword
  | quote _ h => exact h
  | point hp => simp [hp, isQuote] at hc
  | mark hm => simp [hm.2.1] at hc

theorem of_opensMark (hs : opensMark s) {t : List Char} (h : IsToken (s ++ t)) :
    ∃ m ∈ marks, s ++ t = m.toList := by
  obtain ⟨c, u, heq, hshape⟩ := h.shape
  have hc : isWordChar c = false ∧ isQuote c = false ∧
      (c = '.' → u.head?.any Char.isDigit = false) := by
    unfold opensMark at hs
    split at hs
    · cases hs
    · obtain ⟨rfl, rfl⟩ := List.cons.inj heq
      simpa [isWordChar, isQuote] using hs
    · obtain ⟨rfl, -⟩ := List.cons.inj heq
      simp_all
  rw [heq]
  cases hshape with
  | letter hl => simp [isWordChar_of_letter hl] at hc
  | digit hd => simp [isWordChar_of_isDigit hd] at hc
  | quote hq => simp [hq] at hc
  | point hp hdigit => simp [hc.2.2 hp] at hdigit
  | mark _ h => exact h

end IsToken

/-! ### One way to cut -/

/-- Of two tokens at the front of a text, each ending where it does not go on, none is longer. -/
theorem EndsBefore.eq_of_append {t t' rest rest' : List Char} (h : EndsBefore t rest)
    (h' : EndsBefore t' rest') (ht : IsToken t) (ht' : IsToken t')
    (heq : t ++ rest = t' ++ rest') : t = t' := by
  obtain ⟨more, rfl, rfl⟩ | ⟨more, rfl, rfl⟩ := List.append_eq_append_iff.mp heq
  · by_cases hm : more = []
    · rw [hm, List.append_nil]
    · exact absurd ht' (h more hm (List.prefix_append _ _))
  · by_cases hm : more = []
    · rw [hm, List.append_nil]
    · exact absurd ht (h' more hm (List.prefix_append _ _))

/-- Cutting off a token of which it is known that the text begins with it. -/
theorem Munches.of_token {t : String} (ht : IsToken t.toList) {s : List Char} {us : List String}
    (h : Munches (t.toList ++ s) (t :: us) []) : EndsBefore t.toList s ∧ Munches s us [] := by
  generalize heq : t.toList ++ s = text at h
  generalize hts : t :: us = ts at h
  cases h with
  | done => cases hts
  | blank h =>
      obtain ⟨c, rest, hc, hblank⟩ := ht.head
      rw [hc] at heq
      exact absurd (List.cons.inj heq).1 hblank
  | token t' ht' ends h =>
      obtain ⟨rfl, rfl⟩ := List.cons.inj hts
      obtain rfl := List.append_cancel_left heq
      exact ⟨ends, h⟩

theorem Munches.of_blank {s : List Char} {us : List String} (h : Munches (' ' :: s) us []) :
    Munches s us [] := by
  generalize heq : ' ' :: s = text at h
  cases h with
  | done => cases heq
  | blank h => exact (List.cons.inj heq).2 ▸ h
  | token t ht ends h =>
      obtain ⟨c, rest, hc, hblank⟩ := ht.head
      rw [hc] at heq
      exact absurd (List.cons.inj heq).1.symm hblank

/-- What is cut off behind tokens that are cut off. -/
theorem Munches.behind {s mid : List Char} {ts us : List String} (h : Munches s ts mid)
    (h' : Munches s (ts ++ us) []) : Munches mid us [] := by
  induction h with
  | done => exact h'
  | blank _ ih => exact ih h'.of_blank
  | token t ht _ _ ih => exact ih (h'.of_token ht).2

/-- A text is cut into tokens in one way. -/
theorem Munches.unique {s : List Char} {ts us : List String} (h : Munches s ts [])
    (h' : Munches s us []) : ts = us := by
  generalize hr : ([] : List Char) = rest at h
  induction h generalizing us with
  | done =>
      subst hr
      generalize hs : ([] : List Char) = s at h'
      cases h' with
      | done => rfl
      | blank => cases hs
      | token t ht =>
          obtain ⟨c, rest, hc, -⟩ := ht.head
          simp [hc] at hs
  | blank _ ih => exact ih h'.of_blank hr
  | @token t s rest ts ht ends h ih =>
      generalize heq : t.toList ++ s = text at h'
      cases h' with
      | done =>
          obtain ⟨c, rest, hc, -⟩ := ht.head
          simp [hc] at heq
      | blank =>
          obtain ⟨c, rest, hc, hblank⟩ := ht.head
          rw [hc] at heq
          exact absurd (List.cons.inj heq).1 hblank
      | token t' ht' ends' h' =>
          obtain rfl := String.toList_inj.mp (ends.eq_of_append ends' ht ht' heq)
          obtain rfl := List.append_cancel_left heq
          rw [ih h' hr]

/-! ### Where tokens end -/

theorem endsBefore_nil (t : List Char) : EndsBefore t [] :=
  fun _ hne hmore => absurd (List.prefix_nil.mp hmore) hne

/-- Whether a token ends is a matter of the tokens that begin with it and the next character. -/
theorem endsBefore_cons {t : List Char} {c : Char} (h : ∀ more, ¬ IsToken (t ++ c :: more))
    (rest : List Char) : EndsBefore t (c :: rest) := by
  rintro more hne ⟨after, hmore⟩ ht
  cases more with
  | nil => exact hne rfl
  | cons d more =>
      obtain rfl : d = c := (List.cons.inj hmore).1
      exact h more ht

/-- The marks that begin with a text go on after it with these characters. -/
def follows (t : String) : List Char :=
  marks.filterMap fun m => if t.toList <+: m.toList then m.toList[t.toList.length]? else none

theorem mem_follows {t m : String} (hm : m ∈ marks) {c : Char} {more : List Char}
    (h : m.toList = t.toList ++ c :: more) : c ∈ follows t :=
  List.mem_filterMap.mpr ⟨m, hm, by simp [h]⟩

/-- A mark ends before a character that no mark goes on with. -/
theorem endsBefore_of_mark {m : String} (hm : m ∈ marks) (hpoint : m ≠ ".") {rest : List Char}
    (h : ∀ c ∈ rest.head?, c ∉ follows m) : EndsBefore m.toList rest := by
  cases rest with
  | nil => exact endsBefore_nil _
  | cons c rest =>
      refine endsBefore_cons (fun more ht => ?_) rest
      obtain ⟨m', hm', heq⟩ := IsToken.of_opensMark (opensMark_of_mem m hm hpoint) ht
      exact h c rfl (mem_follows hm' heq.symm)

/-- Whether a character goes on with a word or makes it the lead of a literal. -/
def continuesWord (c : Char) : Bool := isWordChar c || isQuote c

theorem endsBefore_of_isWord {t : List Char} (ht : isWord t) {rest : List Char}
    (h : ∀ c ∈ rest.head?, continuesWord c = false) : EndsBefore t rest := by
  obtain ⟨d, t, rfl, hd, hword⟩ := isWord_iff.mp ht
  cases rest with
  | nil => exact endsBefore_nil _
  | cons c rest =>
      refine endsBefore_cons (fun more htoken => ?_) rest
      obtain ⟨hc, hquote⟩ : isWordChar c = false ∧ isQuote c = false := by
        simpa [continuesWord] using h c rfl
      obtain hall | ⟨lead, quote, s, heq, hlead, hq⟩ := htoken.of_letter hd
      · simp [hall c (by simp)] at hc
      · -- The first character that belongs to no word is `c`, and it is the quote.
        have hcut : ((d :: t) ++ c :: more).dropWhile isWordChar = _ :=
          congrArg (List.dropWhile isWordChar) heq
        rw [List.dropWhile_append_of_pos
          (isWordChar_of_isWord ht), List.dropWhile_append_of_pos hlead,
          List.dropWhile_cons_of_neg (by simp [hc]),
          List.dropWhile_cons_of_neg (by simp [isWordChar_of_isQuote hq])] at hcut
        rw [(List.cons.inj hcut).1, hq] at hquote
        cases hquote

/-- The character after a number goes on with it or ends it. -/
theorem continuesNumber_of_numberTail {d c : Char} {t more : List Char}
    (h : numberTail d (t ++ c :: more)) : ∀ last ∈ (d :: t).getLast?, continuesNumber last c := by
  induction t generalizing d with
  | nil =>
      rintro last ⟨⟩
      exact (Bool.and_eq_true_iff.mp h).1
  | cons e t ih =>
      rw [List.getLast?_cons_cons]
      exact ih (Bool.and_eq_true_iff.mp h).2

theorem endsBefore_of_digit {d : Char} (hd : d.isDigit) {t rest : List Char}
    (h : ∀ c ∈ rest.head?, ∀ last ∈ (d :: t).getLast?, continuesNumber last c = false) :
    EndsBefore (d :: t) rest := by
  cases rest with
  | nil => exact endsBefore_nil _
  | cons c rest =>
      refine endsBefore_cons (fun more htoken => ?_) rest
      obtain ⟨last, hlast⟩ : ∃ last, (d :: t).getLast? = some last := ⟨_, List.getLast?_cons⟩
      have hgoes := continuesNumber_of_numberTail (htoken.of_digit hd) last hlast
      rw [h c rfl last hlast] at hgoes
      cases hgoes

/-- Characters that go on with a number, whatever comes before them. -/
theorem numberTail_append {xs ys : List Char} (hx : ∀ c ∈ xs, isWordChar c ∨ c = '.')
    (hy : ∀ last, numberTail last ys) (last : Char) : numberTail last (xs ++ ys) := by
  induction xs generalizing last with
  | nil => exact hy last
  | cons c xs ih =>
      have hc : continuesNumber last c := by
        obtain h | h := hx c List.mem_cons_self <;> simp [continuesNumber, h]
      rw [List.cons_append, numberTail, hc]
      exact ih (fun d hd => hx d (List.mem_cons_of_mem c hd)) c

theorem numberTail_of_isWordChar {xs : List Char} (hx : ∀ c ∈ xs, isWordChar c) (last : Char) :
    numberTail last xs := by
  have hnil : ∀ last, numberTail last [] := fun _ => rfl
  simpa using numberTail_append (fun c hc => .inl (hx c hc)) hnil last

namespace Constant

variable {s : List Char}

theorem numberTail (h : Constant s) (last : Char) : numberTail last s := by
  have hsuffix : ∀ {suffix : String}, suffix ∈ integerSuffixes ∨ suffix ∈ floatingSuffixes →
      ∀ last, Readback.numberTail last suffix.toList := fun hs =>
    numberTail_of_isWordChar fun c hc => (suffix_chars hs c hc).1
  have hdigits : ∀ {ds : List Char}, IsDigits ds → ∀ c ∈ ds, isWordChar c ∨ c = '.' :=
    fun hds c hc => .inl (hds.isWordChar c hc)
  cases h with
  | integer h hs => exact numberTail_append (hdigits h) (hsuffix (.inl hs)) last
  | fixed hw hp hs => exact numberTail_append (Mantissa.places hw hp).chars (hsuffix (.inr hs)) last
  | scaled hm hsign he hs =>
      rw [List.append_assoc]
      refine numberTail_append hm.chars (fun last => ?_) last
      have hletter : continuesNumber last 'e' := by simp [continuesNumber, isWordChar]
      have hrest := numberTail_append (hdigits he) (hsuffix (.inr hs))
      -- The one sign in a constant stands behind the letter of its exponent.
      obtain rfl | rfl := hsign
      · exact Bool.and_eq_true_iff.mpr ⟨hletter, hrest 'e'⟩
      · exact Bool.and_eq_true_iff.mpr ⟨hletter, Bool.and_eq_true_iff.mpr ⟨rfl, hrest '-'⟩⟩

theorem isToken (h : Constant s) : IsToken s := by
  obtain ⟨d, t, rfl, hd⟩ := h.eq_cons
  refine .number ?_
  have htail := (Bool.and_eq_true_iff.mp (h.numberTail '0')).2
  unfold isNumber
  split
  · next heq =>
      obtain ⟨rfl, -⟩ := List.cons.inj heq
      cases hd
  · next heq =>
      obtain ⟨rfl, rfl⟩ := List.cons.inj heq
      simp [hd, htail]
  · next heq => cases heq

/-- A constant ends before a sign, since it does not end in the letter of an exponent. -/
theorem endsBefore (h : Constant s) {rest : List Char}
    (hrest : ∀ c ∈ rest.head?, isWordChar c = false ∧ c ≠ '.') : EndsBefore s rest := by
  obtain ⟨d, t, rfl, hd⟩ := h.eq_cons
  refine endsBefore_of_digit hd fun c hc last hlast => ?_
  have hletter := h.getLast_not_mem last hlast
  obtain ⟨hword, hpoint⟩ := hrest c hc
  simp [continuesNumber, hword, hpoint, hletter]

end Constant

theorem quoteTail_cons {quote c : Char} (hc : c ≠ '\\') (rest : List Char) :
    quoteTail quote (c :: rest) =
      if c == quote then rest.isEmpty else c != '\n' && quoteTail quote rest := by
  rw [quoteTail]
  exact fun _ _ h _ => hc h

/-- Nothing goes on with a literal behind its closing quote. -/
theorem quoteTail_append {quote : Char} (hquote : isQuote quote) {t : List Char}
    (h : quoteTail quote t) (c : Char) (more : List Char) :
    quoteTail quote (t ++ c :: more) = false := by
  have hescape : quote ≠ '\\' := by
    rintro rfl
    cases hquote
  induction t using quoteTail.induct quote with
  | case1 => cases h
  | case2 _ rest ih => exact ih h
  | case3 d rest _ hd =>
      obtain rfl := beq_iff_eq.mp hd
      rw [quoteTail_cons hescape, if_pos hd, List.isEmpty_iff] at h
      rw [h, List.cons_append, quoteTail_cons hescape, if_pos hd]
      rfl
  | case4 d rest hlone hd ih =>
      have hne : d ≠ '\\' := by
        rintro rfl
        cases rest with
        | nil => simp [quoteTail, hescape.symm] at h
        | cons e rest => exact hlone e rest rfl rfl
      rw [quoteTail_cons hne, if_neg hd, Bool.and_eq_true] at h
      rw [List.cons_append, quoteTail_cons hne, if_neg hd, ih h.2, Bool.and_false]

theorem endsBefore_of_quoteTail {quote : Char} (hquote : isQuote quote) {t : List Char}
    (ht : quoteTail quote t) (rest : List Char) : EndsBefore (quote :: t) rest := by
  cases rest with
  | nil => exact endsBefore_nil _
  | cons c rest =>
      refine endsBefore_cons (fun more htoken => ?_) rest
      have hgoes : quoteTail quote (t ++ c :: more) := htoken.of_quote hquote
      rw [quoteTail_append hquote ht] at hgoes
      cases hgoes

end Readback
