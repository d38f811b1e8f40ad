import Readback.Proofs.Layout.Control

/-! # Colours taken out again

`uncoloured` takes the codes of colours out of a text. A code may be taken out wherever it stands, so
texts put together from keywords, literals and texts without escape characters lose their codes part
by part (`Uncolours.append`).

`Fades coloured plain exact` compares a text written with colours and the text written in its place
without them: without its codes the first is the second with blanks left out, and the two are the
same if and only if `exact` holds. -/

namespace Readback

/-- The characters without the codes of colours: bold blue, green and the end of a colour. -/
def uncoloured : List Char → List Char
  | '\x1b' :: '[' :: '1' :: ';' :: '3' :: '4' :: 'm' :: rest => uncoloured rest
  | '\x1b' :: '[' :: '3' :: '2' :: 'm' :: rest => uncoloured rest
  | '\x1b' :: '[' :: '0' :: 'm' :: rest => uncoloured rest
  | c :: rest => c :: uncoloured rest
  | [] => []

/-- Without the codes of colours `s` is `t`, whatever follows it. -/
def Uncolours (s t : List Char) : Prop := ∀ rest, uncoloured (s ++ rest) = t ++ uncoloured rest

theorem uncoloured_cons {c : Char} (h : c ≠ '\x1b') (rest : List Char) :
    uncoloured (c :: rest) = c :: uncoloured rest := by
  rw [uncoloured] <;> rintro _ rfl <;> contradiction

namespace Uncolours

theorem eq {s t : List Char} (h : Uncolours s t) : uncoloured s = t := by
  simpa [uncoloured] using h []

theorem append {s s' t t' : List Char} (h : Uncolours s t) (h' : Uncolours s' t') :
    Uncolours (s ++ s') (t ++ t') := fun rest => by
  rw [List.append_assoc, h, h', List.append_assoc]

theorem of_notMem {s : List Char} (h : '\x1b' ∉ s) : Uncolours s s := by
  intro rest
  induction s with
  | nil => rfl
  | cons c s ih =>
      obtain ⟨hc, hs⟩ : c ≠ '\x1b' ∧ '\x1b' ∉ s := by simpa [eq_comm] using h
      rw [List.cons_append, uncoloured_cons hc, ih hs, List.cons_append]

end Uncolours

/-! ### Texts without escape characters -/

/-- The text has no escape character, and so no code in it. -/
def EscapeFree (s : String) : Prop := '\x1b' ∉ s.toList

instance (s : String) : Decidable (EscapeFree s) := inferInstanceAs (Decidable (¬ _))

namespace EscapeFree

@[simp] theorem append_iff {s t : String} : EscapeFree (s ++ t) ↔ EscapeFree s ∧ EscapeFree t := by
  simp [EscapeFree, String.toList_append, not_or]

theorem append {s t : String} (hs : EscapeFree s) (ht : EscapeFree t) : EscapeFree (s ++ t) :=
  append_iff.mpr ⟨hs, ht⟩

/-- The escape character is a control character. -/
theorem control : '\x1b'.toNat < 32 := by decide

/-- A list of parameters, as types and function heads have it. -/
theorem parameters {l : List String} (h : ∀ s ∈ l, EscapeFree s) (isVariadic : Bool) :
    let list := l ++ if isVariadic then ["..."] else []
    EscapeFree (", ".intercalate (if list.isEmpty then ["void"] else list)) :=
  Lacks.parameters control h isVariadic

theorem integer (i : Int) {suffix : String} (hs : suffix ∈ integerSuffixes) :
    EscapeFree (toString i ++ suffix) := Lacks.integer control i hs

theorem floating (x : Binary64) {suffix : String} (hs : suffix ∈ floatingSuffixes) :
    EscapeFree (floatingText x ++ suffix) := Lacks.floating control x hs

theorem literalQuote (s : String) : EscapeFree (literalQuote s) := Lacks.literalQuote control s

end EscapeFree

namespace Program

/-- No name of a declaration has an escape character in it. -/
def EscapeFreeNames (p : Program) : Prop := ∀ d < p.decls.size, EscapeFree (p.decl d).name

instance (p : Program) : Decidable p.EscapeFreeNames :=
  inferInstanceAs (Decidable (∀ d < p.decls.size, _))

theorem EscapeFreeNames.name {p : Program} (h : p.EscapeFreeNames) (d : DeclId) :
    EscapeFree (p.decl d).name := by
  by_cases hd : d < p.decls.size
  · exact h d hd
  · have hnone : p.decl d = default := by simp [decl, Nat.le_of_not_lt hd]
    rw [hnone]
    decide

theorem EscapeFreeNames.declarator {p : Program} (h : p.EscapeFreeNames) (t : QualType)
    {name : String} (hname : EscapeFree name) : EscapeFree (p.declarator t name) :=
  CType.lacks_declarator EscapeFree.control h.name _ _ hname

theorem EscapeFreeNames.typeText {p : Program} (h : p.EscapeFreeNames) (t : QualType) :
    EscapeFree (p.typeText t) := h.declarator t (by decide)

end Program

/-! ### Texts with and without colours -/

/-- `Spaced s t`: `t` is `s` with blanks put in. -/
inductive Spaced : List Char → List Char → Prop where
  | nil : Spaced [] []
  | char (c : Char) {s t} (rest : Spaced s t) : Spaced (c :: s) (c :: t)
  | blank {s t} (rest : Spaced s t) : Spaced s (' ' :: t)

namespace Spaced

theorem refl (s : List Char) : Spaced s s := by
  induction s with
  | nil => exact .nil
  | cons c s ih => exact .char c ih

theorem append {s s' t t' : List Char} (h : Spaced s t) (h' : Spaced s' t') :
    Spaced (s ++ s') (t ++ t') := by
  induction h with
  | nil => exact h'
  | char c _ ih => exact .char c ih
  | blank _ ih => exact .blank ih

theorem length_le {s t : List Char} (h : Spaced s t) : s.length ≤ t.length := by
  induction h with
  | nil => exact Nat.le_refl _
  | char c _ ih => exact Nat.succ_le_succ ih
  | blank _ ih => exact Nat.le_succ_of_le ih

/-- Blanks that make a whole of two parts no longer make neither of them longer. -/
theorem append_eq_iff {s s' t t' : List Char} (h : Spaced s t) (h' : Spaced s' t') :
    s ++ s' = t ++ t' ↔ s = t ∧ s' = t' := by
  refine ⟨fun heq => ?_, fun ⟨hs, hs'⟩ => hs ▸ hs' ▸ rfl⟩
  have hlen : s.length = t.length := by
    have := congrArg List.length heq
    rw [List.length_append, List.length_append] at this
    have := h.length_le
    have := h'.length_le
    omega
  exact List.append_inj heq hlen

end Spaced

/-- Without its codes `coloured` is `plain` with blanks left out; it is the same if and only if
`exact` holds. -/
def Fades (coloured plain : String) (exact : Prop) : Prop :=
  ∃ s, Uncolours coloured.toList s ∧ Spaced s plain.toList ∧ (s = plain.toList ↔ exact)

namespace Fades

variable {a b a' b' s : String} {E E' : Prop}

theorem congr (h : Fades a b E) (hE : E ↔ E') : Fades a b E' := by
  obtain ⟨s, hs, hb, heq⟩ := h
  exact ⟨s, hs, hb, heq.trans hE⟩

theorem of_escapeFree (h : EscapeFree s) : Fades s s True :=
  ⟨_, .of_notMem h, .refl _, iff_of_true rfl trivial⟩

theorem append (h : Fades a b E) (h' : Fades a' b' E') : Fades (a ++ a') (b ++ b') (E ∧ E') := by
  obtain ⟨s, hs, hb, heq⟩ := h
  obtain ⟨s', hs', hb', heq'⟩ := h'
  refine ⟨s ++ s', ?_, ?_, ?_⟩
  · rw [String.toList_append]
    exact hs.append hs'
  · rw [String.toList_append]
    exact hb.append hb'
  · rw [String.toList_append, hb.append_eq_iff hb', heq, heq']

/-- A text that is the same with and without colours, in front of another one. -/
theorem after (hs : EscapeFree s) (h : Fades a b E) : Fades (s ++ a) (s ++ b) E :=
  ((of_escapeFree hs).append h).congr (iff_of_eq (true_and E))

/-- A text that is the same with and without colours, behind another one. -/
theorem before (h : Fades a b E) (hs : EscapeFree s) : Fades (a ++ s) (b ++ s) E :=
  (h.append (of_escapeFree hs)).congr (iff_of_eq (and_true E))

/-- A blank that only the text without colours has. -/
theorem gap (h : Fades a b E) : Fades a (" " ++ b) False := by
  obtain ⟨s, hs, hb, -⟩ := h
  have hcons : (" " ++ b).toList = ' ' :: b.toList := by rw [String.toList_append]; rfl
  refine ⟨s, hs, ?_, iff_of_false ?_ id⟩
  · rw [hcons]
    exact hb.blank
  · rw [hcons]
    intro heq
    have := hb.length_le
    rw [heq, List.length_cons] at this
    omega

/-- A text in a colour whose code is taken out. -/
theorem painted {color : String} (hs : EscapeFree s)
    (hcode : Uncolours (['\x1b', '['] ++ color.toList ++ ['m']) []) :
    Fades (painted color s) s True := by
  have hsame : ∀ code xs, '\x1b' ∉ xs → repaint code xs = xs := by
    intro code xs hxs
    induction xs with
    | nil => rfl
    | cons c xs ih =>
        obtain ⟨hc, hxs⟩ : c ≠ '\x1b' ∧ '\x1b' ∉ xs := by simpa [eq_comm] using hxs
        rw [repaint, ih hxs]
        rintro _ rfl
        contradiction
  have hend : Uncolours plainCode [] := fun rest => by rw [plainCode]; rfl
  refine ⟨s.toList, ?_, .refl _, iff_of_true rfl trivial⟩
  simpa [Readback.painted, hsame _ _ hs] using (hcode.append (.of_notMem hs)).append hend

theorem keyword (hs : EscapeFree s) : Fades (keyword true s) (keyword false s) True :=
  .painted hs fun _ => rfl

theorem literal (hs : EscapeFree s) : Fades (literal true s) (literal false s) True :=
  .painted hs fun _ => rfl

/-- What is left when the codes are taken out. -/
theorem uncoloured (h : Fades a b E) :
    Spaced (uncoloured a.toList) b.toList ∧ (Readback.uncoloured a.toList = b.toList ↔ E) := by
  obtain ⟨s, hs, hb, heq⟩ := h
  rw [hs.eq]
  exact ⟨hb, heq⟩

end Fades

end Readback
