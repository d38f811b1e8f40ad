import Mathlib.Logic.Relation
import Readback.Proofs.Program.Roll
import Readback.Proofs.Typing.Changes
import Readback.Proofs.Typing.Declaring

/-! # Records inside records

A record is stored inside another if a field has its type, or an array type over it
(`Program.Contains`). Such a relation has to be without cycles for records to have a size
(`Program.Finite`).

A field is checked by itself when it is made: it must not have the type of its own record. So no record
is ever directly a field of itself, but the check does not look through arrays or through other records.

* `CType.held?` is the record that objects of a type are made of: the type itself, or the elements of an
  array. Pointers hold nothing.
* `Program.withField` is the program with one more field. What is stored where afterwards is what was
  before, and what the new field stores (`contains_withField`); so a path afterwards was there before,
  or leads through the new field (`transGen_withField`). A field leads to a cycle exactly if the record
  that it stores leads back to the one that it stands in, which is `Program.Closes`
  (`finite_withField`).
* `Program.SelfFree` says that no field has the type of its record. All calls of construction keep it
  (`Constructed.selfFree`), also those that complete declarations, because the fields of a record are
  set only by making them.

The main result is `Program.Constructed.field_contains`. In a constructed program no field has the type
of the record that it stands in. A new field is refused as incomplete exactly if its type is `void`, a
function or the record itself, and then nothing changes; and a field that is accepted keeps records
finite unless it closes a cycle. That it can close one is shown by
`Program.Constructed.field_contains_array`, a record with an array of itself. -/

namespace Readback

open Step Relation

/-- The record that objects of the type are made of, if any: itself, or the elements of an array. -/
def CType.held? : CType → Option DeclId
  | .record _ decl => some decl
  | .array _ element _ => element.held?
  | _ => none

namespace Program

/-- The record has a field of the type. -/
def HasField (p : Program) (r : DeclId) (t : QualType) : Prop :=
  ∃ f ∈ p.declsIn (.record r), (p.decl f).scope = .record r ∧
    ∃ index, (p.decl f).kind = .field t index

/-- The record `r` has a field in which `s` is stored. -/
def Contains (p : Program) (r s : DeclId) : Prop :=
  ∃ t, p.HasField r t ∧ (p.types.tree t).held? = some s

/-- No record is stored inside itself, at whatever depth. -/
def Finite (p : Program) : Prop := ∀ r, ¬ TransGen p.Contains r r

/-- A field of the type in the record `r` would store `r` inside itself. -/
def Closes (p : Program) (r : DeclId) (t : QualType) : Prop :=
  ∃ s, (p.types.tree t).held? = some s ∧ ReflTransGen p.Contains s r

/-! ### Making a field -/

/-- The program with one more field in a record that had the given ones. -/
def withField (p : Program) (r : DeclId) (fields : List DeclId) (name : String) (t : QualType) :
    Program :=
  (p.pushDecl name (.record r) (.field t fields.length)).2.setDeclKind r
    (.record (fields ++ [p.decls.size]))

variable {p : Program} {r : DeclId} {fields : List DeclId} {t : QualType}

theorem lt_of_kind_record (hr : (p.decl r).kind = .record fields) : r < p.decls.size :=
  lt_of_kind_ne (by rw [hr]; exact nofun)

theorem decl_withField (hr : (p.decl r).kind = .record fields) (name : String) (d : DeclId) :
    (p.withField r fields name t).decl d =
      if d = r then { p.decl r with kind := .record (fields ++ [p.decls.size]) }
      else if d = p.decls.size then ⟨p.decls.size, name, .record r, .field t fields.length⟩
      else p.decl d := by
  have hlt := lt_of_kind_record hr
  have hsize : (p.pushDecl name (.record r) (.field t fields.length)).2.decls.size =
      p.decls.size + 1 := Array.size_push ..
  rw [withField, decl_setDeclKind, hsize]
  by_cases hd : d = r
  · subst hd
    rw [if_pos ⟨rfl, Nat.lt_succ_of_lt hlt⟩, if_pos rfl, decl_pushDecl_of_lt _ _ _ _ hlt]
  · rw [if_neg fun h => hd h.1.symm, if_neg hd, decl_pushDecl]
    by_cases hnew : d = p.decls.size
    · rw [if_pos hnew, hnew, Function.update_self]
    · rw [if_neg hnew, Function.update_of_ne hnew]

/-- What making a field does, on any record. -/
theorem fieldDecl_eq (hr : (p.decl r).kind = .record fields) (name : String) :
    Check.fieldDecl r name t p =
      if Check.isIncompleteField p r t then .error (.incompleteField name (p.typeText t)) p
      else .ok p.decls.size (p.withField r fields name t) := by
  have hlt := lt_of_kind_record hr
  unfold Check.fieldDecl
  rw [get_bind]
  dsimp only
  rw [hr]
  dsimp only
  split
  · rfl
  · have hpushed : ((p.pushDecl name (.record r) (.field t fields.length)).2.decl r).kind =
        .record fields := by rw [decl_pushDecl_of_lt _ _ _ _ hlt, hr]
    have hpush : Check.pushDecl name (.record r) (.field t fields.length) p =
        .ok p.decls.size (p.pushDecl name (.record r) (.field t fields.length)).2 := rfl
    rw [bind_of_ok hpush]
    refine bind_of_ok (a := ()) ?_ _
    unfold Check.addDecl
    dsimp only
    rw [get_bind, hpushed]
    rfl

theorem declsIn_withField (hr : (p.decl r).kind = .record fields) (name : String) (a : DeclId) :
    (p.withField r fields name t).declsIn (.record a) =
      if a = r then p.declsIn (.record r) ++ [p.decls.size] else p.declsIn (.record a) := by
  have hfields : p.declsIn (.record r) = fields := by rw [declsIn, hr]; rfl
  rw [hfields, declsIn, decl_withField hr]
  by_cases ha : a = r
  · rw [if_pos ha, if_pos ha]
    rfl
  · rw [if_neg ha, if_neg ha]
    by_cases hnew : a = p.decls.size
    · -- Neither a field nor a declaration that is not there lists anything.
      have hdefault : p.decl a = default := by simp [decl, hnew]
      rw [if_pos hnew, declsIn, hdefault]
      rfl
    · rw [if_neg hnew]
      rfl

/-- The fields afterwards are those before and the new one. -/
theorem hasField_withField (hr : (p.decl r).kind = .record fields) (name : String) (a : DeclId)
    (u : QualType) :
    (p.withField r fields name t).HasField a u ↔ p.HasField a u ∨ a = r ∧ u = t := by
  unfold HasField
  simp only [declsIn_withField hr]
  constructor
  · rintro ⟨f, hmem, hscope, index, hkind⟩
    rw [decl_withField hr] at hscope hkind
    split at hkind
    · cases hkind
    · next hfr =>
        rw [if_neg hfr] at hscope
        split at hkind
        · next hnew =>
            rw [if_pos hnew] at hscope
            cases hscope
            cases hkind
            exact .inr ⟨rfl, rfl⟩
        · next hnew =>
            rw [if_neg hnew] at hscope
            refine .inl ⟨f, ?_, hscope, index, hkind⟩
            split at hmem
            · next ha =>
                rw [ha]
                exact (List.mem_append.mp hmem).resolve_right (mt List.mem_singleton.mp hnew)
            · exact hmem
  · rintro (⟨f, hmem, hscope, index, hkind⟩ | ⟨rfl, rfl⟩)
    · have hfr : f ≠ r := by
        rintro rfl
        rw [hr] at hkind
        cases hkind
      have hlt : f < p.decls.size := lt_of_kind_ne (by rw [hkind]; exact nofun)
      have hdecl : (p.withField r fields name t).decl f = p.decl f := by
        rw [decl_withField hr, if_neg hfr, if_neg (Nat.ne_of_lt hlt)]
      refine ⟨f, ?_, by rw [hdecl]; exact hscope, index, by rw [hdecl]; exact hkind⟩
      split
      · next ha => exact List.mem_append_left _ (ha ▸ hmem)
      · exact hmem
    · have hdecl : (p.withField a fields name u).decl p.decls.size =
          ⟨p.decls.size, name, .record a, .field u fields.length⟩ := by
        rw [decl_withField hr, if_neg (Nat.ne_of_gt (lt_of_kind_record hr)), if_pos rfl]
      refine ⟨p.decls.size, ?_, by rw [hdecl], fields.length, by rw [hdecl]⟩
      rw [if_pos rfl]
      exact List.mem_append_right _ List.mem_cons_self

/-- What is stored where afterwards: what was before, and what the new field stores. -/
theorem contains_withField (hr : (p.decl r).kind = .record fields) (name : String) (a b : DeclId) :
    (p.withField r fields name t).Contains a b ↔
      p.Contains a b ∨ a = r ∧ (p.types.tree t).held? = some b := by
  have htypes : (p.withField r fields name t).types = p.types := rfl
  unfold Contains
  simp only [hasField_withField hr, htypes]
  constructor
  · rintro ⟨u, hu | ⟨rfl, rfl⟩, hb⟩
    · exact .inl ⟨u, hu, hb⟩
    · exact .inr ⟨rfl, hb⟩
  · rintro (⟨u, hu, hb⟩ | ⟨rfl, hb⟩)
    · exact ⟨u, .inl hu, hb⟩
    · exact ⟨t, .inr ⟨rfl, rfl⟩, hb⟩

/-! ### Cycles -/

/-- A path afterwards was there before, or it leads through the new field. -/
theorem transGen_withField (hr : (p.decl r).kind = .record fields) (name : String) {a b : DeclId}
    (h : TransGen (p.withField r fields name t).Contains a b) :
    TransGen p.Contains a b ∨ ∃ s, (p.types.tree t).held? = some s ∧
      ReflTransGen p.Contains a r ∧ ReflTransGen p.Contains s b := by
  induction h with
  | single hb =>
      obtain hold | ⟨rfl, hnew⟩ := (contains_withField hr name _ _).mp hb
      · exact .inl (.single hold)
      · exact .inr ⟨_, hnew, .refl, .refl⟩
  | tail _ hc ih =>
      obtain hold | ⟨rfl, hnew⟩ := (contains_withField hr name _ _).mp hc
      · obtain before | ⟨s, hs, har, hsb⟩ := ih
        · exact .inl (before.tail hold)
        · exact .inr ⟨s, hs, har, hsb.tail hold⟩
      · obtain before | ⟨_, _, har, _⟩ := ih
        · exact .inr ⟨_, hnew, before.to_reflTransGen, .refl⟩
        · exact .inr ⟨_, hnew, har, .refl⟩

/-- One more field keeps records finite unless it closes a cycle. -/
theorem finite_withField (hr : (p.decl r).kind = .record fields) (name : String) :
    (p.withField r fields name t).Finite ↔ p.Finite ∧ ¬ p.Closes r t := by
  have hmono : ∀ a b, p.Contains a b → (p.withField r fields name t).Contains a b :=
    fun a b h => (contains_withField hr name a b).mpr (.inl h)
  constructor
  · refine fun finite => ⟨fun a ha => finite a (TransGen.mono hmono _ _ ha), ?_⟩
    rintro ⟨s, hs, hsr⟩
    have edge := (contains_withField hr name r s).mpr (.inr ⟨rfl, hs⟩)
    exact finite r (.head' edge (ReflTransGen.mono hmono _ _ hsr))
  · rintro ⟨finite, open'⟩ a ha
    obtain before | ⟨s, hs, har, hsa⟩ := transGen_withField hr name ha
    · exact finite a before
    · exact open' ⟨s, hs, hsa.trans har⟩

/-! ### No field has the type of its record -/

/-- Fields have known types, none of which is the record that the field stands in. -/
def SelfFree (p : Program) : Prop :=
  ∀ (f r : DeclId) (t : QualType) (index : Nat), (p.decl f).scope = .record r →
    (p.decl f).kind = .field t index → ∃ node, p.types.get? t.ref = some node ∧ node ≠ .record r

/-- The step leaves no field with the type of its record if there was none. -/
def KeepsSelfFree (p q : Program) : Prop := p.SelfFree → q.SelfFree

/-- Fields that were there before are all there is to look at, if types are only added. -/
theorem SelfFree.of_fields {q : Program} (h : p.SelfFree) (types : p.types.Within q.types)
    (fields : ∀ f t index, (q.decl f).kind = .field t index →
      (p.decl f).kind = .field t index ∧ (q.decl f).scope = (p.decl f).scope) : q.SelfFree := by
  intro f r t index hscope hkind
  obtain ⟨hkind, hs⟩ := fields f t index hkind
  obtain ⟨node, hnode, hne⟩ := h f r t index (hs ▸ hscope) hkind
  exact ⟨node, types _ _ hnode, hne⟩

theorem KeepsSelfFree.complete {d : DeclId} {k : DeclKind} (sort : k.sort = (p.decl d).kind.sort) :
    p.KeepsSelfFree (p.setDeclKind d k) := by
  refine fun h => h.of_fields (.refl _) fun f t index hf => ⟨?_, scope_setDeclKind f⟩
  rw [decl_setDeclKind] at hf
  split at hf
  · next hd =>
      cases hf
      rw [← hd.1]
      cases hk : (p.decl d).kind <;> rw [hk] at sort <;> cases sort
      rfl
  · exact hf

instance : Declaring KeepsSelfFree where
  refl _ := id
  trans _ _ _ h h' := h' ∘ h
  intern p node h := h.of_fields (p.types.within_intern node) fun _ _ _ hf => ⟨hf, rfl⟩
  pushExpr _ _ _ _ h := h.of_fields (.refl _) fun _ _ _ hf => ⟨hf, rfl⟩
  pushStmt _ _ h := h.of_fields (.refl _) fun _ _ _ hf => ⟨hf, rfl⟩
  list _ _ h := h.of_fields (.refl _) fun _ _ _ hf => ⟨hf, rfl⟩
  complete _ _ _ settled := .complete (DeclKind.sort_of_settled_eq settled)
  pushDecl p name scope k _ _ noField h := by
    refine h.of_fields (.refl _) fun f t index hf => ?_
    rw [decl_pushDecl] at hf ⊢
    by_cases hnew : f = p.decls.size
    · subst hnew
      rw [Function.update_self] at hf
      exact absurd hf (noField t index)
    · rw [Function.update_of_ne hnew] at hf ⊢
      exact ⟨hf, rfl⟩

end Program

namespace Check

open Program

theorem setParams_keepsSelfFree (function : DeclId) (params : List DeclId) :
    Moves KeepsSelfFree (setParams function params) := by
  refine .get_bind fun p => ?_
  dsimp only
  split
  · next hk =>
      split
      · split
        · exact id
        · exact .complete (by rw [hk]; rfl)
      · exact id
  · exact id

/-- A type that is not there counts as `void`, which no field can have. -/
theorem fieldDecl_keepsSelfFree (record : DeclId) (name : String) (type : QualType) :
    Moves KeepsSelfFree (fieldDecl record name type) := by
  intro p
  cases hk : (p.decl record).kind with
  | record fields =>
      unfold Step.after
      rw [fieldDecl_eq hk]
      by_cases hbad : isIncompleteField p record type = true
      · rw [if_pos hbad]
        exact id
      · rw [if_neg hbad]
        intro h f r t index hscope hkind
        rw [decl_withField hk] at hscope hkind
        split at hkind
        · cases hkind
        · next hf =>
            rw [if_neg hf] at hscope
            split at hkind
            · next hnew =>
                rw [if_pos hnew] at hscope
                cases hscope
                cases hkind
                show ∃ node, p.types.get? type.ref = some node ∧ _
                unfold isIncompleteField Program.node TypeArena.node at hbad
                cases hget : p.types.get? type.ref with
                | none => simp [hget] at hbad
                | some node =>
                    refine ⟨node, rfl, ?_⟩
                    rintro rfl
                    simp [hget] at hbad
            · next hnew =>
                rw [if_neg hnew] at hscope
                exact h f r t index hscope hkind
  | _ =>
      have herror : ∃ fault, fieldDecl record name type p = .error fault p := by
        unfold fieldDecl
        rw [get_bind]
        dsimp only
        rw [hk]
        exact ⟨_, rfl⟩
      obtain ⟨fault, herror⟩ := herror
      unfold Step.after
      rw [herror]
      exact id

instance : Constructing KeepsSelfFree := ⟨setParams_keepsSelfFree, fieldDecl_keepsSelfFree⟩

end Check

namespace Program

theorem Constructed.selfFree {p : Program} (h : p.Constructed) : p.SelfFree := by
  induction h with
  | empty target =>
      intro f r t index _ hkind
      exact absurd (lt_of_kind_ne (by rw [hkind]; exact nofun)) (Nat.not_lt_zero f)
  | step c _ _ ih => exact c.run_moves (R := KeepsSelfFree) _ ih

/-- A type through which a record is stored inside itself is refused in two cases. -/
theorem Closes.isIncompleteField {p : Program} {r : DeclId} {t : QualType} (h : p.Closes r t) :
    Check.isIncompleteField p r t = true ↔
      p.node t = .record r ∨ ∃ element, p.node t = .array element none := by
  obtain ⟨s, hs, -⟩ := h
  have hnode : p.types.node t = p.node t := rfl
  unfold TypeArena.tree TypeArena.treeAux at hs
  rw [hnode] at hs
  unfold Check.isIncompleteField
  cases hk : p.node t with
  | record d => simp
  | array element size => simp
  | builtin kind =>
      rw [hk] at hs
      cases hs
  | pointer pointee =>
      rw [hk] at hs
      cases hs
  | function result params isVariadic =>
      rw [hk] at hs
      cases hs

/-- **Fields that store a record inside itself.** In a constructed program no field has the type of
the record that it stands in. A new field is refused as incomplete, and then nothing changes, exactly
if its type is `void`, a function, an array of unknown size or the record itself. Otherwise it is
made, adds just what it stores to what is stored where, and keeps records finite if and only if it
does not close a cycle. Of the fields that close one, the check refuses those of the type of the
record itself and arrays of unknown size, and no others. -/
theorem Constructed.field_contains {p : Program} (h : p.Constructed) {r : DeclId}
    {fields : List DeclId} (hr : (p.decl r).kind = .record fields) (name : String) (t : QualType) :
    (∀ s u, p.HasField s u → p.node u ≠ .record s) ∧
    (match Check.fieldDecl r name t p with
      | .error fault q => fault = .incompleteField name (p.typeText t) ∧ q = p ∧
          (p.isVoid t = true ∨ p.isFunction t = true ∨ (∃ element, p.node t = .array element none) ∨
            p.node t = .record r)
      | .ok f q => q.HasField r t ∧ f ∈ q.declsIn (.record r) ∧
          (∀ a b, q.Contains a b ↔ p.Contains a b ∨ a = r ∧ (p.types.tree t).held? = some b) ∧
          (q.Finite ↔ p.Finite ∧ ¬ p.Closes r t) ∧
          ¬ (p.isVoid t = true ∨ p.isFunction t = true ∨
            (∃ element, p.node t = .array element none) ∨ p.node t = .record r)) ∧
    (p.Closes r t → ((∃ fault q, Check.fieldDecl r name t p = .error fault q) ↔
      p.node t = .record r ∨ ∃ element, p.node t = .array element none)) := by
  have hbad : Check.isIncompleteField p r t = true ↔ (p.isVoid t = true ∨ p.isFunction t = true ∨
      (∃ element, p.node t = .array element none) ∨ p.node t = .record r) := by
    unfold Check.isIncompleteField isVoid isFunction builtin?
    cases p.node t <;> simp
  refine ⟨?_, ?_, ?_⟩
  · rintro s u ⟨f, -, hscope, index, hkind⟩ hnode
    obtain ⟨node, hget, hne⟩ := h.selfFree f s u index hscope hkind
    rw [Program.node, TypeArena.node, hget] at hnode
    exact hne hnode
  · rw [fieldDecl_eq hr]
    by_cases hb : Check.isIncompleteField p r t = true
    · rw [if_pos hb]
      exact ⟨rfl, rfl, hbad.mp hb⟩
    · rw [if_neg hb]
      refine ⟨(hasField_withField hr name r t).mpr (.inr ⟨rfl, rfl⟩), ?_, contains_withField hr name,
        finite_withField hr name, fun hc => hb (hbad.mpr hc)⟩
      rw [declsIn_withField hr, if_pos rfl]
      exact List.mem_append_right _ List.mem_cons_self
  · intro closes
    rw [← closes.isIncompleteField, fieldDecl_eq hr]
    by_cases hb : Check.isIncompleteField p r t = true
    · rw [if_pos hb]
      exact iff_of_true ⟨_, _, rfl⟩ hb
    · rw [if_neg hb]
      exact iff_of_false nofun hb

/-- `struct S { struct S inner[2]; };` is accepted: the field is an array of the record that it
stands in, which stores `S` inside itself. -/
theorem Constructed.field_contains_array :
    ∃ p f q, p.Constructed ∧ p.Finite ∧ p.Closes 0 (.plain 1) ∧
      Check.fieldDecl 0 "inner" (.plain 1) p = .ok f q ∧ q.Contains 0 0 ∧ ¬ q.Finite := by
  have h₀ := Constructed.empty ⟨"x86_64-unknown-linux-gnu", false, 16, 32, 64, 64, 64⟩
  have h₁ := h₀.step (.recordDecl .file "S") (by decide +kernel)
  have h₂ := h₁.step (.recordType 0) (by decide +kernel)
  have h₃ := h₂.step (.arrayOf (.plain 0) (some 2)) (by decide +kernel)
  generalize hp : (Construction.arrayOf (.plain 0) (some 2)).after _ = p at h₃
  have hr : (p.decl 0).kind = .record [] := by rw [← hp]; decide +kernel
  have hnode : p.node (.plain 1) = .array (.plain 0) (some 2) := by rw [← hp]; decide +kernel
  have hheld : (p.types.tree (.plain 1)).held? = some 0 := by rw [← hp]; decide +kernel
  have hcloses : p.Closes 0 (.plain 1) := ⟨0, hheld, .refl⟩
  have hsize : p.decls.size = 1 := by rw [← hp]; decide +kernel
  have hfinite : p.Finite := by
    intro r hloop
    obtain ⟨_, ⟨t, ⟨f, -, -, index, hf⟩, -⟩, -⟩ := TransGen.head'_iff.mp hloop
    have hlt : f < p.decls.size := lt_of_kind_ne (by rw [hf]; exact nofun)
    rw [hsize, Nat.lt_one_iff] at hlt
    rw [hlt, hr] at hf
    cases hf
  obtain ⟨-, hrun, hrefused⟩ := h₃.field_contains hr "inner" (.plain 1)
  have haccepted : ¬ ∃ fault q, Check.fieldDecl 0 "inner" (.plain 1) p = .error fault q := by
    rw [hrefused hcloses, hnode]
    exact nofun
  cases h : Check.fieldDecl 0 "inner" (.plain 1) p with
  | error fault q => exact absurd ⟨fault, q, h⟩ haccepted
  | ok f q =>
      rw [h] at hrun
      obtain ⟨-, -, hcontains, hq, -⟩ := hrun
      exact ⟨p, f, q, h₃, hfinite, hcloses, h, (hcontains 0 0).mpr (.inr ⟨rfl, hheld⟩),
        fun finite => (hq.mp finite).2 hcloses⟩

end Program

end Readback
