import Readback.Proofs.Typing.Decay
import Readback.Proofs.Typing.Ranges

/-! # Integer conversions

C promotes an integer type that ranks below `int` to `int` if that has all its values and to
`unsigned int` otherwise, and then finds a common type by signedness, rank and values. The typing rules
find the common type so, but promote to `int` in every case.

* `Builtin.rank`, `Target.promoted` and `Target.common` are the rules of C, by the ranges of values that
  types have on a target. `Builtin.raised` is promotion that does not look at values.
* `Target.Regular` asks that types of higher rank are not narrower, which C demands of every platform.
  It holds on those that a triple names (`Target.regular_ofTriple`).
* The two promotions are the same just where `int` has all values of the type, and that fails only for
  an unsigned type below `int` that is as wide (`Target.Regular.raised_eq_promoted`). So on the
  platforms that triples name, C promotes to `int` in every case too (`Target.promoted_ofTriple`).

The rest is about the steps that find types. `Finds` says that a step finds a builtin type and only
interns types. The common type of two promoted types is found as C finds it (`commonInteger_finds`): the
code asks whether a signed type is wider, which is just when it has all values of an unsigned one of
lower rank.

The main result is `Program.integer_conversions`. For all integer operands and every regular target, the
operators that bring their operands to a common type (`BinaryOp.converts`), shifts, and the operators
that promote their operand (`UnaryOp.promotes`) succeed, and their type is the raised one or the common
type of the raised ones. `Program.integer_conversions_narrow` and `Program.unsignedShort_conversions`
are about a platform where `int` is no wider than `short`, where that loses values. -/

namespace Readback

open Step

/-! ### The rules of C -/

namespace Builtin

/-- The conversion rank of an integer type. -/
def rank (k : Builtin) : Nat := k.integerRank?.getD 0

/-- Promotion that does not look at values: what ranks below `int` becomes `int`. -/
def raised (k : Builtin) : Builtin := if k.rank < Builtin.int.rank then .int else k

end Builtin

namespace Target

/-- Promotion in C. -/
def promoted (t : Target) (k : Builtin) : Builtin :=
  if k.rank < Builtin.int.rank then if t.Represents .int k then .int else .unsignedInt else k

/-- The common type in C of an unsigned and a signed type. -/
def mixed (t : Target) (unsigned signed : Builtin) : Builtin :=
  if signed.rank ≤ unsigned.rank then unsigned
  else if t.Represents signed unsigned then signed
  else signed.toUnsigned

/-- The common type in C of two promoted types. -/
def common (t : Target) (k l : Builtin) : Builtin :=
  if k = l then k
  else if t.unsigned k = t.unsigned l then if l.rank ≤ k.rank then k else l
  else if t.unsigned k then t.mixed k l
  else t.mixed l k

/-- Types of higher rank are not narrower. -/
structure Regular (t : Target) : Prop where
  short : 8 ≤ t.shortWidth
  int : t.shortWidth ≤ t.intWidth
  long : t.intWidth ≤ t.longWidth
  longLong : t.longWidth ≤ t.longLongWidth
  int128 : t.longLongWidth ≤ 128

instance (t : Target) : Decidable t.Regular :=
  decidable_of_iff (8 ≤ t.shortWidth ∧ t.shortWidth ≤ t.intWidth ∧ t.intWidth ≤ t.longWidth ∧
      t.longWidth ≤ t.longLongWidth ∧ t.longLongWidth ≤ 128)
    ⟨fun h => ⟨h.1, h.2.1, h.2.2.1, h.2.2.2.1, h.2.2.2.2⟩,
      fun h => ⟨h.short, h.int, h.long, h.longLong, h.int128⟩⟩

variable {t : Target} {k l : Builtin}

theorem regular_ofTriple (triple : String) : (ofTriple triple).Regular := by
  refine ⟨show 8 ≤ 16 by decide, show 16 ≤ 32 by decide, ?_, ?_, show 64 ≤ 128 by decide⟩
  · show 32 ≤ ite _ 32 64
    split <;> decide
  · show ite _ 32 64 ≤ 64
    split <;> decide

namespace Regular

variable (h : t.Regular)

include h

theorem width_pos (hk : k.isInteger = true) : 0 < t.width k := by
  obtain ⟨hshort, hint, hlong, hlongLong, h128⟩ := h
  cases k <;> first
    | exact absurd hk (by decide)
    | simp only [width, integerWidth?, Option.getD_some]; omega

theorem width_le_int (hk : k.isInteger = true) (hrank : k.rank < Builtin.int.rank) :
    t.width k ≤ t.width .int := by
  obtain ⟨hshort, hint, -, -, -⟩ := h
  cases k <;> first
    | exact absurd hk (by decide)
    | exact absurd hrank (by decide)
    | simp only [width, integerWidth?, Option.getD_some]; omega

/-- What ranks below `int` fits in it, unless it is unsigned and as wide. -/
theorem represents_int (hk : k.isInteger = true) (hrank : k.rank < Builtin.int.rank) :
    t.Represents .int k ↔ (t.unsigned k = true → t.width k < t.width .int) := by
  cases hsign : t.unsigned k with
  | true =>
      rw [represents_signed_unsigned rfl hsign (h.width_pos rfl)]
      exact ⟨fun hlt _ => hlt, fun hlt => hlt rfl⟩
  | false =>
      have hint : t.unsigned .int = t.unsigned k := hsign.symm
      exact iff_of_true (represents_of_width_le hint (h.width_le_int hk hrank)) (by simp)

/-- Promotion to `int` keeps all values just where it is what C does. -/
theorem raised_eq_promoted (hk : k.isInteger = true) :
    (k.raised = t.promoted k ↔ t.Represents k.raised k) ∧ (t.Represents k.raised k ↔
      (k.rank < Builtin.int.rank → t.unsigned k = true → t.width k < t.width .int)) := by
  unfold Builtin.raised promoted
  split
  · next hrank =>
      refine ⟨?_, (h.represents_int hk hrank).trans ⟨fun hlt _ => hlt, fun hlt => hlt hrank⟩⟩
      split
      · next hint => exact iff_of_true rfl hint
      · next hint => exact iff_of_false (by decide) hint
  · next hrank =>
      exact ⟨iff_of_true rfl (.refl t k), iff_of_true (.refl t k) fun hlt => absurd hlt hrank⟩

end Regular

/-- On the platforms that triples name, C promotes to `int` in every case. -/
theorem promoted_ofTriple (triple : String) (hk : k.isInteger = true) :
    (ofTriple triple).promoted k = k.raised := by
  have h := (regular_ofTriple triple).raised_eq_promoted hk
  refine (h.1.mpr (h.2.mpr fun hrank _ => ?_)).symm
  show (ofTriple triple).width k < 32
  cases k <;> first
    | exact absurd hk (by decide)
    | exact absurd hrank (by decide)
    | exact show 1 < 32 by decide
    | exact show 8 < 32 by decide
    | exact show 16 < 32 by decide

end Target

/-! ### The types of operations -/

namespace Program

variable {p q : Program} {t : QualType} {k : Builtin}

/-- The type is the builtin type, without qualifiers. -/
structure IsBuiltin (p : Program) (t : QualType) (k : Builtin) : Prop where
  node : p.node t = .builtin k
  plain : t.unqualified = t
  known : p.HasType t

theorem IsBuiltin.builtin? (h : p.IsBuiltin t k) : p.builtin? t = some k := by
  rw [Program.builtin?, h.node]

theorem IsBuiltin.within (h : p.IsBuiltin t k) (hq : p.types.Within q.types) : q.IsBuiltin t k :=
  ⟨(node_of_within hq h.known).trans h.node, h.plain, Nat.lt_of_lt_of_le h.known hq.size_le⟩

/-- Integer types are there: an unknown type counts as `void`. -/
theorem hasType_of_integer (hk : k.isInteger = true) (ht : p.builtin? t = some k) : p.HasType t := by
  refine Nat.lt_of_not_le fun hle => ?_
  have hnone : p.types.get? t.ref = none := Array.getElem?_eq_none hle
  rw [Program.builtin?, Program.node, TypeArena.node, hnone] at ht
  cases ht
  cases hk

theorem isBuiltin_of_integer (hk : k.isInteger = true) (ht : p.builtin? t = some k) :
    p.IsBuiltin t.unqualified k := by
  refine ⟨?_, rfl, hasType_of_integer hk ht⟩
  show p.node t = _
  unfold Program.builtin? at ht
  split at ht
  · next hn => rw [hn, Option.some.inj ht]
  · cases ht

end Program

namespace Check

open Program

variable {p q : Program} {t : QualType} {k l : Builtin}

/-- The step finds the builtin type and only interns types. -/
abbrev Finds (m : Check QualType) (p : Program) (k : Builtin) : Prop :=
  Outcome m p (fun t q => q.IsBuiltin t k ∧ p.types.Within q.types ∧ q.target = p.target)
    fun _ _ => False

theorem builtin_finds (k : Builtin) (p : Program) : Finds (builtin k) p k :=
  ⟨⟨node_internNode_self p _, rfl, Interned.intern_lt _ _⟩, p.types.within_intern _, rfl⟩

theorem pure_finds (ht : p.IsBuiltin t k) : Finds (pure t) p k := ⟨ht, .refl _, rfl⟩

theorem promote_finds (hk : k.isInteger = true) (ht : p.builtin? t = some k) :
    Finds (promote t) p k.raised := by
  obtain ⟨rank, hrank⟩ := Option.isSome_iff_exists.mp hk
  have hrank' : k.rank = rank := by rw [Builtin.rank, hrank]; rfl
  refine .get_bind ?_
  rw [ht, Option.bind_some, hrank, Builtin.raised, hrank', show Builtin.int.rank = 4 from rfl]
  dsimp only
  split
  · exact builtin_finds .int p
  · exact pure_finds (isBuiltin_of_integer hk ht)

theorem mixed_eq (h : p.target.Regular) (hl : l.isInteger = true)
    (hu : p.target.unsigned k = true) (hs : p.target.unsigned l = false) :
    p.target.mixed k l = if l.rank ≤ k.rank then k
      else if p.target.width k < p.target.width l then l else l.toUnsigned := by
  rw [Target.mixed, ite_congr rfl (fun _ => rfl) fun _ => ?_]
  simp only [Target.represents_signed_unsigned hs hu (h.width_pos hl)]

/-- The common type is found as C finds it: a signed type has all values of an unsigned one of lower
rank just if it is wider. -/
theorem commonInteger_finds (h : p.target.Regular) (hk : k.isInteger = true) (hl : l.isInteger = true)
    {a b : QualType} (ha : p.IsBuiltin a k) (hb : p.IsBuiltin b l) :
    Finds (commonInteger a b) p (p.target.common k l) := by
  have mixed {u s : Builtin} (hs' : s.isInteger = true) (hu : p.target.unsigned u = true)
      (hs : p.target.unsigned s = false) :
      Finds (if s.rank ≤ u.rank then builtin u
        else if p.target.width u < p.target.width s then builtin s
        else builtin s.toUnsigned) p (p.target.mixed u s) := by
    rw [mixed_eq h hs' hu hs]
    split
    · exact builtin_finds u p
    · split <;> exact builtin_finds _ p
  refine .get_bind ?_
  dsimp only
  rw [ha.builtin?, hb.builtin?]
  dsimp only
  unfold Target.common
  split
  · exact pure_finds ha
  · show Outcome (if p.target.unsigned k = p.target.unsigned l then
        pure (if l.rank ≤ k.rank then a else b) else _ : Check QualType) p _ _
    split
    · split
      · exact pure_finds ha
      · exact pure_finds hb
    · next hsign =>
        cases hu : p.target.unsigned k with
        | true =>
            have hs : p.target.unsigned l = false :=
              Bool.eq_false_iff.mpr fun hl => hsign (hu.trans hl.symm)
            rw [show k.isUnsigned p.target.charIsUnsigned = true from hu]
            exact mixed hl hu hs
        | false =>
            have hs : p.target.unsigned l = true :=
              (Bool.not_eq_false _).mp fun hl => hsign (hu.trans hl.symm)
            rw [show k.isUnsigned p.target.charIsUnsigned = false from hu]
            exact mixed hk hs hu

theorem integerRank_raised (hk : k.isInteger = true) : k.raised.isInteger = true := by
  unfold Builtin.raised
  split
  · rfl
  · exact hk

/-- Both operands are promoted to `int` and then brought to their common type. -/
theorem usualConversions_finds (h : p.target.Regular) (hk : k.isInteger = true)
    (hl : l.isInteger = true) {a b : QualType} (ha : p.builtin? a = some k)
    (hb : p.builtin? b = some l) :
    Finds (usualConversions a b) p (p.target.common k.raised l.raised) := by
  have hfloating {j : Builtin} (hj : j.isInteger = true) : j.floatingRank? = none := by
    cases j <;> first | rfl | exact absurd hj (by decide)
  refine .get_bind ?_
  rw [ha, hb]
  dsimp only
  rw [hfloating hk, hfloating hl]
  refine (promote_finds hk ha).bind ?_
  rintro a' q ⟨ha', hq, htarget⟩
  have hb' : q.builtin? b = some l :=
    (builtin?_congr (node_of_within hq (hasType_of_integer hl hb))).trans hb
  refine (promote_finds hl hb').bind ?_
  rintro b' s ⟨hb', hs, htarget'⟩
  have htarget := htarget'.trans htarget
  rw [← htarget] at h ⊢
  have hcommon := commonInteger_finds h (integerRank_raised hk) (integerRank_raised hl)
    (ha'.within hs) hb'
  refine hcommon.mono ?_ fun _ _ => id
  rintro c t ⟨hc, ht, htarget⟩
  exact ⟨hc, hq.trans (hs.trans ht), htarget⟩

/-- The step succeeds and makes an expression of the builtin type, without qualifiers. -/
def MakesBuiltin (m : Check ExprId) (p : Program) (k : Builtin) : Prop :=
  Outcome m p (fun e q => q.node (q.expr e).type = .builtin k ∧
    (q.expr e).type.unqualified = (q.expr e).type) fun _ _ => False

instance (m : Check ExprId) (p : Program) (k : Builtin) : Decidable (MakesBuiltin m p k) := by
  unfold MakesBuiltin Outcome
  split <;> infer_instance

theorem makesBuiltin_of_ok {m : Check ExprId} {e : ExprId} {r : Program} (hm : m p = .ok e r)
    (htypes : r.types = q.types) (hmade : (r.expr e).type = t) (ht : q.IsBuiltin t k) :
    MakesBuiltin m p k := by
  unfold MakesBuiltin Outcome
  rw [hm]
  show r.node (r.expr e).type = _ ∧ _
  rw [hmade, Program.node, htypes]
  exact ⟨ht.node, ht.plain⟩

/-- An operator takes integers as they are. -/
theorem binary_makesBuiltin {op : BinaryOp} (hop : op ≠ .assign) (hbase : op.compoundBase? = none)
    {x y : ExprId} (hx : p.isInteger (p.expr x).type = true) (hy : p.isInteger (p.expr y).type = true)
    {m : Check QualType} (hm : Finds m p k)
    (hrule : operatorType? op (p.expr x).type (p.expr y).type x y p = (some <$> m) p) :
    MakesBuiltin (binary op x y) p k := by
  obtain ⟨t, q, ht, hbuiltin, -, -⟩ := hm.ok
  have hrule : operatorType? op (p.expr x).type (p.expr y).type x y p = .ok (some t) q := by
    rw [hrule, map_eq_pure_bind, bind_of_ok ht]
    rfl
  have htype : binaryType op x y p = .ok t q := by
    unfold binaryType operatorType
    rw [get_bind, if_neg hop, hbase]
    show (decay (p.expr x).type >>= fun l => decay (p.expr y).type >>= fun r =>
      operatorType? op l r x y >>= fun _ => _ : Check QualType) p = _
    rw [bind_of_ok (decay_integer hx), bind_of_ok (decay_integer hy), bind_of_ok hrule]
    rfl
  obtain ⟨e, r, hr, htypes, hmade⟩ := binary_ok htype
  exact makesBuiltin_of_ok hr htypes hmade hbuiltin

theorem unary_makesBuiltin {op : UnaryOp} {x : ExprId} (hk : k.isInteger = true)
    (hx : p.builtin? (p.expr x).type = some k)
    (hrule : unaryType op x p = (promote (p.expr x).type >>= fun t => pure (t, .rvalue)) p) :
    MakesBuiltin (unary op x) p k.raised := by
  obtain ⟨t, q, ht, hbuiltin, -, -⟩ := (promote_finds hk hx).ok
  have htype : unaryType op x p = .ok (t, .rvalue) q := by
    rw [hrule, bind_of_ok ht]
    rfl
  obtain ⟨e, r, hr, htypes, hmade, -⟩ := unary_ok htype
  exact makesBuiltin_of_ok hr htypes hmade hbuiltin

end Check

/-- The operators that bring their operands to a common type. -/
def BinaryOp.converts (op : BinaryOp) : Bool :=
  op ∈ [.mul, .div, .rem, .add, .sub, .bitAnd, .bitXor, .bitOr]

/-- The operators that promote their operand. -/
def UnaryOp.promotes (op : UnaryOp) : Bool := op ∈ [.plus, .minus, .bitNot]

namespace Check

open Program

variable {p : Program} {a b : QualType}

theorem isArithmetic_of_isInteger (ha : p.isInteger a = true) : p.isArithmetic a = true := by
  unfold isInteger at ha
  unfold isArithmetic
  cases h : p.builtin? a with
  | none =>
      rw [h] at ha
      cases ha
  | some k =>
      rw [h] at ha
      exact Bool.or_eq_true_iff.mpr (.inl ha)

theorem operatorType?_integers (ha : p.isInteger a = true) (hb : p.isInteger b = true) (x y : ExprId)
    (op : BinaryOp) :
    (op.converts = true → operatorType? op a b x y p = (some <$> usualConversions a b) p) ∧
    (op = .shl ∨ op = .shr → operatorType? op a b x y p = (some <$> promote a) p) := by
  unfold operatorType?
  rw [get_bind, ha, hb, isArithmetic_of_isInteger ha, isArithmetic_of_isInteger hb]
  constructor
  · intro hop
    cases op <;> first | rfl | exact absurd hop (by decide)
  · rintro (rfl | rfl) <;> rfl

theorem unaryType_integer {x : ExprId} (hx : p.isInteger (p.expr x).type = true) {op : UnaryOp}
    (hop : op.promotes = true) :
    unaryType op x p = (promote (p.expr x).type >>= fun t => pure (t, .rvalue)) p := by
  unfold unaryType
  rw [get_bind, hx, isArithmetic_of_isInteger hx]
  cases op <;> first | rfl | exact absurd hop (by decide)

end Check

namespace Program

open Check

variable {p : Program} {k l : Builtin}

/-- **Integer conversions.** On every target on which types of higher rank are not narrower, operands
of integer type are promoted to `int` if they rank below it, and from there the common type is the one
of C. Promotion is that of C just where it keeps all values of the operand, and so it does unless the
operand is unsigned, ranks below `int` and is as wide. -/
theorem integer_conversions (h : p.target.Regular) {x y : ExprId} (hk : k.isInteger = true)
    (hl : l.isInteger = true) (hx : p.builtin? (p.expr x).type = some k)
    (hy : p.builtin? (p.expr y).type = some l) :
    (∀ op : BinaryOp, op.converts = true →
      MakesBuiltin (binary op x y) p (p.target.common k.raised l.raised)) ∧
    (∀ op : BinaryOp, op = .shl ∨ op = .shr → MakesBuiltin (binary op x y) p k.raised) ∧
    (∀ op : UnaryOp, op.promotes = true → MakesBuiltin (unary op x) p k.raised) ∧
    ∀ j ∈ [k, l], (j.raised = p.target.promoted j ↔ p.target.Represents j.raised j) ∧
      (p.target.Represents j.raised j ↔ (j.rank < Builtin.int.rank → p.target.unsigned j = true →
        p.target.width j < p.target.width .int)) := by
  have hx' : p.isInteger (p.expr x).type = true := by rw [isInteger, hx]; exact hk
  have hy' : p.isInteger (p.expr y).type = true := by rw [isInteger, hy]; exact hl
  have rules := operatorType?_integers hx' hy' x y
  refine ⟨fun op hop => ?_, fun op hop => ?_, fun op hop => ?_, fun j hj => h.raised_eq_promoted ?_⟩
  · refine binary_makesBuiltin ?_ ?_ hx' hy' (usualConversions_finds h hk hl hx hy) ((rules op).1 hop)
    · rintro rfl
      exact absurd hop (by decide)
    · cases op <;> first | rfl | exact absurd hop (by decide)
  · refine binary_makesBuiltin ?_ ?_ hx' hy' (promote_finds hk hx) ((rules op).2 hop)
    · rintro rfl
      exact absurd hop (by decide)
    · rcases hop with rfl | rfl <;> rfl
  · exact unary_makesBuiltin hk hx (unaryType_integer hx' hop)
  · rcases List.mem_pair.mp hj with rfl | rfl
    · exact hk
    · exact hl

/-- An `unsigned short` and a `long` on a platform where `int` is no wider than `short`. -/
theorem integer_conversions_narrow :
    ∃ p : Program, p.Constructed ∧ p.target.Regular ∧
      p.builtin? (p.expr 0).type = some .unsignedShort ∧ p.builtin? (p.expr 1).type = some .long ∧
      MakesBuiltin (binary .add 0 1) p (p.target.common .int .long) ∧
      p.target.common .int .long = .long ∧ MakesBuiltin (binary .shl 0 1) p .int ∧
      MakesBuiltin (unary .plus 0) p .int ∧ ¬ p.target.Represents .int .unsignedShort := by
  have h₀ := Constructed.empty ⟨"avr-unknown-none", false, 16, 16, 32, 64, 16⟩
  have h₁ := h₀.step (.builtin .unsignedShort) (by decide +kernel)
  have h₂ := h₁.step (.integer 1 (.plain 0)) (by decide +kernel)
  have h₃ := h₂.step (.builtin .long) (by decide +kernel)
  have h := h₃.step (.integer 1 (.plain 1)) (by decide +kernel)
  obtain ⟨p, h, hregular, hx, hy, hcommon, hwidth⟩ : ∃ p : Program, p.Constructed ∧ p.target.Regular ∧
      p.builtin? (p.expr 0).type = some .unsignedShort ∧ p.builtin? (p.expr 1).type = some .long ∧
      p.target.common .int .long = .long ∧ ¬ p.target.width .unsignedShort < p.target.width .int :=
    ⟨_, h, by decide +kernel, by decide +kernel, by decide +kernel, by decide +kernel,
      by decide +kernel⟩
  obtain ⟨hbinary, hshift, hunary, hvalues⟩ := integer_conversions hregular rfl rfl hx hy
  exact ⟨p, h, hregular, hx, hy, hbinary .add rfl, hcommon, hshift .shl (.inl rfl), hunary .plus rfl,
    fun hall => hwidth ((hvalues .unsignedShort List.mem_cons_self).2.mp hall (by decide) rfl)⟩

/-- There C promotes an `unsigned short` to `unsigned int`, for `int` lacks some of its values. -/
theorem unsignedShort_conversions :
    ∃ p : Program, p.Constructed ∧ p.target.Regular ∧
      p.builtin? (p.expr 0).type = some .unsignedShort ∧
      MakesBuiltin (binary .add 0 0) p .int ∧
      p.target.common (p.target.promoted .unsignedShort) (p.target.promoted .unsignedShort) =
        .unsignedInt ∧
      p.target.Holds .unsignedShort 65535 ∧ ¬ p.target.Holds .int 65535 := by
  have h₀ := Constructed.empty ⟨"avr-unknown-none", false, 16, 16, 32, 64, 16⟩
  have h₁ := h₀.step (.builtin .unsignedShort) (by decide +kernel)
  have h := h₁.step (.integer 1 (.plain 0)) (by decide +kernel)
  exact ⟨_, h, by decide +kernel, by decide +kernel, by decide +kernel, by decide +kernel,
    by decide +kernel, by decide +kernel⟩

end Program

end Readback
