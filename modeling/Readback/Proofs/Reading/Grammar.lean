import Readback.Operator

/-! # The operator grammar of C

Token sequences of expressions and the trees that they are read as. `Derives` is the grammar: operators
at the levels of `Precedence`, assignments grouping to the right and all other binary operators to the
left, prefix operators and casts at the level `unary`, suffix operators and calls at the level
`suffixed`, and the items of argument and initializer lists above the comma operator. Parentheses group
and leave no trace in a `Reading`.

The grammar is unambiguous (`Derives.unique`). The proof reads tokens from left to right by precedence
climbing.

* A symbol is told by its place: at the beginning of an operand it is an `Opening`, after one a
  `Continuation`. `Stops n ts` says that no continuation at the level `n` or above starts `ts`.
* `Reads` is the left-to-right reading, with what is sought (`Goal`) and what is left. It gives at most
  one result (`Reads.unique`).
* It gives the tree of every derivation, whatever follows the derived tokens, as long as that cannot
  continue the expression (`ReadFrom`, `Derives.readFrom`); `barrier` says what can at which level. -/

namespace Readback

/-- A token of an expression. A cast with its parentheses is one token. -/
inductive Token where
  | name (text : String)
  | literal (text : String)
  | symbol (text : String)
  | castTo (type : String)
deriving DecidableEq, Inhabited

/-- An expression as it is read. Parentheses leave no trace. -/
inductive Reading where
  | name (text : String)
  | literal (text : String)
  | unary (op : UnaryOp) (operand : Reading)
  | binary (op : BinaryOp) (lhs rhs : Reading)
  | cast (type : String) (operand : Reading)
  | list (elements : List Reading)
  | call (callee : Reading) (args : List Reading)
deriving Inhabited

/-- Token sequences with a comma between each two. -/
def separated : List (List Token) → List Token
  | [] => []
  | [ts] => ts
  | ts :: rest => ts ++ .symbol "," :: separated rest

/-- `Derives p ts t`: the tokens `ts` form an expression that binds at least as tightly as `p`, and
its tree is `t`. -/
inductive Derives : Precedence → List Token → Reading → Prop where
  | name (s : String) : Derives .primary [.name s] (.name s)
  | literal (s : String) : Derives .primary [.literal s] (.literal s)
  | group {ts t} (inner : Derives .comma ts t) :
      Derives .primary (.symbol "(" :: ts ++ [.symbol ")"]) t
  | list (items : List (List Token × Reading))
      (each : ∀ x ∈ items, Derives .assignment x.1 x.2) :
      Derives .primary
        (.symbol "\x7b" :: separated (items.map Prod.fst) ++ [.symbol "\x7d"])
        (.list (items.map Prod.snd))
  | call {ts f} (callee : Derives .suffixed ts f) (items : List (List Token × Reading))
      (each : ∀ x ∈ items, Derives .assignment x.1 x.2) :
      Derives .suffixed
        (ts ++ .symbol "(" :: separated (items.map Prod.fst) ++ [.symbol ")"])
        (.call f (items.map Prod.snd))
  | suffixed {ts t} (op : UnaryOp) (isSuffix : op.isSuffix = true)
      (operand : Derives .suffixed ts t) :
      Derives .suffixed (ts ++ [.symbol op.spelling]) (.unary op t)
  | prefixed {ts t} (op : UnaryOp) (isPrefix : op.isSuffix = false)
      (operand : Derives .unary ts t) :
      Derives .unary (.symbol op.spelling :: ts) (.unary op t)
  | cast {ts t} (type : String) (operand : Derives .unary ts t) :
      Derives .unary (.castTo type :: ts) (.cast type t)
  | leftward {ts us l r} {q : Precedence} (op : BinaryOp) (isLeftward : op.isAssignment = false)
      (lhs : Derives op.precedence ts l) (tighter : op.precedence < q) (rhs : Derives q us r) :
      Derives op.precedence (ts ++ .symbol op.spelling :: us) (.binary op l r)
  | rightward {ts us l r} {q : Precedence} (op : BinaryOp) (isRightward : op.isAssignment = true)
      (tighter : op.precedence < q) (lhs : Derives q ts l) (rhs : Derives op.precedence us r) :
      Derives op.precedence (ts ++ .symbol op.spelling :: us) (.binary op l r)
  | looser {ts t} {p q : Precedence} (le : p ≤ q) (tighter : Derives q ts t) : Derives p ts t

/-! ### Symbols by their place

The same symbol may stand before an operand or after one, so reading goes by the place. -/

/-- What a symbol in front of an operand means. -/
inductive Opening where
  | group
  | list
  | prefixed (op : UnaryOp)

/-- What a symbol after an operand means. -/
inductive Continuation where
  | binary (op : BinaryOp)
  | suffixed (op : UnaryOp)
  | call

/-- The meaning of a symbol in front of an operand. -/
def Opening.of? (s : String) : Option Opening :=
  if s = "(" then some .group
  else if s = "\x7b" then some .list
  else ((UnaryOp.all.filter (!·.isSuffix)).find? (·.spelling = s)).map .prefixed

/-- The meaning of a symbol after an operand. -/
def Continuation.of? (s : String) : Option Continuation :=
  if s = "(" then some .call
  else ((UnaryOp.all.filter (·.isSuffix)).find? (·.spelling = s)).map .suffixed
    <|> (BinaryOp.all.find? (·.spelling = s)).map .binary

/-- The level at which a continuation binds. -/
def Continuation.level : Continuation → Nat
  | .binary op => op.precedence.level
  | .suffixed _ => Precedence.suffixed.level
  | .call => Precedence.suffixed.level

theorem Opening.of?_prefixed {op : UnaryOp} (h : op.isSuffix = false) :
    Opening.of? op.spelling = some (.prefixed op) := by
  cases op <;> first | rfl | cases h

theorem Continuation.of?_suffixed {op : UnaryOp} (h : op.isSuffix = true) :
    Continuation.of? op.spelling = some (.suffixed op) := by
  cases op <;> first | rfl | cases h

theorem Continuation.of?_binary (op : BinaryOp) :
    Continuation.of? op.spelling = some (.binary op) := by
  cases op <;> rfl

theorem Continuation.level_ne_unary (c : Continuation) : c.level ≠ Precedence.unary.level := by
  cases c with
  | binary op => cases op <;> decide
  | suffixed op => simp [level, Precedence.level]
  | call => simp [level, Precedence.level]

/-! ### Reading from left to right -/

/-- What is to be read: an expression of at least a level; the rest of one, after a first operand; a
list of items; or the rest of such a list, after an item. -/
inductive Goal where
  | expr (least : Nat)
  | rest (least : Nat) (first : Reading)
  | items
  | moreItems

/-- No continuation of at least the given level comes first. -/
def Stops (least : Nat) (ts : List Token) : Prop :=
  ∀ s us c, ts = .symbol s :: us → Continuation.of? s = some c → c.level < least

/-- Whether a symbol ends a list of items. -/
def IsClosing (s : String) : Prop := s = ")" ∨ s = "\x7d"

/-- The least level of the operand after a binary operator. -/
def operandLevel (op : BinaryOp) : Nat :=
  if op.isAssignment then op.precedence.level else op.precedence.level + 1

/-- `Reads goal ts out left`: reading `ts` for `goal` gives `out` and leaves `left`. An expression
gives one tree. -/
inductive Reads : Goal → List Token → List Reading → List Token → Prop where
  | name {n s ts out left} (rest : Reads (.rest n (.name s)) ts out left) :
      Reads (.expr n) (.name s :: ts) out left
  | literal {n s ts out left} (rest : Reads (.rest n (.literal s)) ts out left) :
      Reads (.expr n) (.literal s :: ts) out left
  | group {n s t ts us out left} (opening : Opening.of? s = some .group)
      (inner : Reads (.expr 0) ts [t] (.symbol ")" :: us))
      (rest : Reads (.rest n t) us out left) : Reads (.expr n) (.symbol s :: ts) out left
  | list {n s es ts us out left} (opening : Opening.of? s = some .list)
      (inner : Reads .items ts es (.symbol "\x7d" :: us))
      (rest : Reads (.rest n (.list es)) us out left) : Reads (.expr n) (.symbol s :: ts) out left
  | prefixed {n s op t ts us out left} (opening : Opening.of? s = some (.prefixed op))
      (inner : Reads (.expr Precedence.unary.level) ts [t] us)
      (rest : Reads (.rest n (.unary op t)) us out left) :
      Reads (.expr n) (.symbol s :: ts) out left
  | cast {n type t ts us out left} (inner : Reads (.expr Precedence.unary.level) ts [t] us)
      (rest : Reads (.rest n (.cast type t)) us out left) :
      Reads (.expr n) (.castTo type :: ts) out left
  | binary {n s op l r ts us out left} (continuation : Continuation.of? s = some (.binary op))
      (le : n ≤ op.precedence.level) (inner : Reads (.expr (operandLevel op)) ts [r] us)
      (rest : Reads (.rest n (.binary op l r)) us out left) :
      Reads (.rest n l) (.symbol s :: ts) out left
  | suffixed {n s op l ts out left} (continuation : Continuation.of? s = some (.suffixed op))
      (le : n ≤ Precedence.suffixed.level)
      (rest : Reads (.rest n (.unary op l)) ts out left) :
      Reads (.rest n l) (.symbol s :: ts) out left
  | call {n s l es ts us out left} (continuation : Continuation.of? s = some .call)
      (le : n ≤ Precedence.suffixed.level) (inner : Reads .items ts es (.symbol ")" :: us))
      (rest : Reads (.rest n (.call l es)) us out left) :
      Reads (.rest n l) (.symbol s :: ts) out left
  | stop {n t ts} (stops : Stops n ts) : Reads (.rest n t) ts [t] ts
  | noItems {s ts} (closing : IsClosing s) : Reads .items (.symbol s :: ts) [] (.symbol s :: ts)
  | items {t es ts us left} (first : Reads (.expr Precedence.assignment.level) ts [t] us)
      (more : Reads .moreItems us es left) : Reads .items ts (t :: es) left
  | lastItem {s ts} (closing : IsClosing s) :
      Reads .moreItems (.symbol s :: ts) [] (.symbol s :: ts)
  | nextItem {t es ts us left} (first : Reads (.expr Precedence.assignment.level) ts [t] us)
      (more : Reads .moreItems us es left) : Reads .moreItems (.symbol "," :: ts) (t :: es) left

theorem IsClosing.opening {s : String} (h : IsClosing s) : Opening.of? s = none := by
  obtain rfl | rfl := h <;> rfl

theorem IsClosing.continuation {s : String} (h : IsClosing s) : Continuation.of? s = none := by
  obtain rfl | rfl := h <;> rfl

theorem Stops.of_closing {s : String} (h : IsClosing s) (n : Nat) (ts : List Token) :
    Stops n (.symbol s :: ts) := by
  rintro s' us c ⟨⟩ hc
  rw [h.continuation] at hc
  cases hc

theorem Stops.mono {m n : Nat} {ts : List Token} (h : Stops m ts) (hmn : m ≤ n) : Stops n ts :=
  fun s us c hs hc => Nat.lt_of_lt_of_le (h s us c hs hc) hmn

theorem Stops.nil (n : Nat) : Stops n [] := by
  rintro s us c ⟨⟩

/-- An expression does not start with a symbol that closes a list. -/
theorem not_reads_closing {n : Nat} {s : String} {ts left : List Token} {out : List Reading}
    (h : IsClosing s) : ¬ Reads (.expr n) (.symbol s :: ts) out left := by
  intro hr
  have hn := h.opening
  cases hr <;> simp_all

/-- Reading gives at most one result. -/
theorem Reads.unique {g : Goal} {ts left left' : List Token} {out out' : List Reading}
    (h : Reads g ts out left) (h' : Reads g ts out' left') : out = out' ∧ left = left' := by
  induction h generalizing out' left' with
  | name _ ih => cases h' with
    | name rest => exact ih rest
  | literal _ ih => cases h' with
    | literal rest => exact ih rest
  | group ho _ _ ihi ihr => cases h' with
    | group _ inner rest =>
        obtain ⟨⟨⟩, ⟨⟩⟩ := ihi inner
        exact ihr rest
    | list ho' => simp [ho] at ho'
    | prefixed ho' => simp [ho] at ho'
  | list ho _ _ ihi ihr => cases h' with
    | group ho' => simp [ho] at ho'
    | list _ inner rest =>
        obtain ⟨rfl, ⟨⟩⟩ := ihi inner
        exact ihr rest
    | prefixed ho' => simp [ho] at ho'
  | prefixed ho _ _ ihi ihr => cases h' with
    | group ho' => simp [ho] at ho'
    | list ho' => simp [ho] at ho'
    | prefixed ho' inner rest =>
        obtain ⟨⟨⟩, rfl⟩ := ihi inner
        obtain rfl : _ = _ := by simpa [ho] using ho'
        exact ihr rest
  | cast _ _ ihi ihr => cases h' with
    | cast inner rest =>
        obtain ⟨⟨⟩, rfl⟩ := ihi inner
        exact ihr rest
  | binary hc hle _ _ ihi ihr => cases h' with
    | binary hc' _ inner rest =>
        obtain rfl : _ = _ := by simpa [hc] using hc'
        obtain ⟨⟨⟩, rfl⟩ := ihi inner
        exact ihr rest
    | suffixed hc' => simp [hc] at hc'
    | call hc' => simp [hc] at hc'
    | stop hs => exact absurd (hs _ _ _ rfl hc) (Nat.not_lt.mpr hle)
  | suffixed hc hle _ ihr => cases h' with
    | binary hc' => simp [hc] at hc'
    | suffixed hc' _ rest =>
        obtain rfl : _ = _ := by simpa [hc] using hc'
        exact ihr rest
    | call hc' => simp [hc] at hc'
    | stop hs => exact absurd (hs _ _ _ rfl hc) (Nat.not_lt.mpr hle)
  | call hc hle _ _ ihi ihr => cases h' with
    | binary hc' => simp [hc] at hc'
    | suffixed hc' => simp [hc] at hc'
    | call _ _ inner rest =>
        obtain ⟨rfl, ⟨⟩⟩ := ihi inner
        exact ihr rest
    | stop hs => exact absurd (hs _ _ _ rfl hc) (Nat.not_lt.mpr hle)
  | stop hs => cases h' with
    | binary hc hle => exact absurd (hs _ _ _ rfl hc) (Nat.not_lt.mpr hle)
    | suffixed hc hle => exact absurd (hs _ _ _ rfl hc) (Nat.not_lt.mpr hle)
    | call hc hle => exact absurd (hs _ _ _ rfl hc) (Nat.not_lt.mpr hle)
    | stop => exact ⟨rfl, rfl⟩
  | noItems hc => cases h' with
    | noItems => exact ⟨rfl, rfl⟩
    | items first => exact absurd first (not_reads_closing hc)
  | items hf _ ihf ihm => cases h' with
    | noItems hc => exact absurd hf (not_reads_closing hc)
    | items first more =>
        obtain ⟨⟨⟩, rfl⟩ := ihf first
        obtain ⟨rfl, rfl⟩ := ihm more
        exact ⟨rfl, rfl⟩
  | lastItem hc => cases h' with
    | lastItem => exact ⟨rfl, rfl⟩
    | nextItem => simp [IsClosing] at hc
  | nextItem _ _ ihf ihm => cases h' with
    | lastItem hc => simp [IsClosing] at hc
    | nextItem first more =>
        obtain ⟨⟨⟩, rfl⟩ := ihf first
        obtain ⟨rfl, rfl⟩ := ihm more
        exact ⟨rfl, rfl⟩

/-! ### Every derivation is read -/

/-- The least level of a continuation that could take part of an expression of the given precedence
away. Assignments group to the right, so one of them may not follow another. -/
def barrier (p : Precedence) : Nat := if p.level ≤ 1 then 1 else p.level + 1

theorem barrier_mono {p q : Precedence} (h : p ≤ q) : barrier p ≤ barrier q := by
  have h : p.level ≤ q.level := h
  unfold barrier
  split <;> split <;> omega

/-- `t` is read from `ts`, whatever follows, if what follows cannot continue it. -/
def ReadFrom (p : Precedence) (ts : List Token) (t : Reading) : Prop :=
  ∀ n, n ≤ p.level → ∀ rest, Stops (barrier p) rest → ∀ out left,
    Reads (.rest n t) rest out left → Reads (.expr n) (ts ++ rest) out left

/-- If nothing of at least the level `n` follows, then reading at that level ends after `ts`. -/
theorem ReadFrom.exact {p : Precedence} {ts rest : List Token} {t : Reading} {n : Nat}
    (h : ReadFrom p ts t) (hn : n ≤ p.level) (hb : Stops (barrier p) rest) (hs : Stops n rest) :
    Reads (.expr n) (ts ++ rest) [t] rest :=
  h n hn rest hb [t] rest (.stop hs)

theorem Stops.of_binary {op : BinaryOp} {n : Nat} (h : op.precedence.level < n) (ts : List Token) :
    Stops n (.symbol op.spelling :: ts) := by
  rintro s us c ⟨⟩ hc
  obtain rfl : Continuation.binary op = c := by simpa [Continuation.of?_binary] using hc
  exact h

theorem Stops.of_comma (ts : List Token) : Stops 1 (.symbol "," :: ts) :=
  .of_binary (show BinaryOp.comma.precedence.level < 1 by decide) ts

/-- Items after the first are read up to the symbol that closes the list. -/
theorem reads_moreItems {s : String} (hs : IsClosing s) (rest : List Token)
    {ts : List Token} {t : Reading} (ht : ReadFrom .assignment ts t)
    (items : List (List Token × Reading)) (h : ∀ x ∈ items, ReadFrom .assignment x.1 x.2) :
    Reads .items (separated (ts :: items.map Prod.fst) ++ .symbol s :: rest)
      (t :: items.map Prod.snd) (.symbol s :: rest) := by
  have more : ∀ (items : List (List Token × Reading)) (ts : List Token) (t : Reading),
      ReadFrom .assignment ts t → (∀ x ∈ items, ReadFrom .assignment x.1 x.2) →
      ∃ us, Reads (.expr Precedence.assignment.level)
          (separated (ts :: items.map Prod.fst) ++ .symbol s :: rest) [t] us ∧
        Reads .moreItems us (items.map Prod.snd) (.symbol s :: rest) := by
    intro items
    induction items with
    | nil =>
        intro ts t ht _
        have hst : Stops 1 (.symbol s :: rest) := .of_closing hs _ _
        exact ⟨.symbol s :: rest, ht.exact (Nat.le_refl _) hst hst, .lastItem hs⟩
    | cons x items ih =>
        intro ts t ht hx
        obtain ⟨us, hf, hm⟩ := ih x.1 x.2 (hx x List.mem_cons_self)
          fun y hy => hx y (List.mem_cons_of_mem x hy)
        refine ⟨.symbol "," :: (separated (x.1 :: items.map Prod.fst) ++ .symbol s :: rest), ?_,
          .nextItem hf hm⟩
        have hst := Stops.of_comma (separated (x.1 :: items.map Prod.fst) ++ .symbol s :: rest)
        simpa [separated] using ht.exact (Nat.le_refl _) hst hst
  obtain ⟨us, hf, hm⟩ := more items ts t ht h
  exact .items hf hm

/-- Items are read up to the symbol that closes the list. -/
theorem reads_items {s : String} (hs : IsClosing s) (rest : List Token)
    (items : List (List Token × Reading)) (h : ∀ x ∈ items, ReadFrom .assignment x.1 x.2) :
    Reads .items (separated (items.map Prod.fst) ++ .symbol s :: rest)
      (items.map Prod.snd) (.symbol s :: rest) := by
  cases items with
  | nil => exact .noItems hs
  | cons x items =>
      exact reads_moreItems hs rest (h x List.mem_cons_self) items
        fun y hy => h y (List.mem_cons_of_mem x hy)

theorem Stops.of_suffixed_level (ts : List Token) : Stops (barrier .suffixed) ts := by
  rintro s us c - -
  cases c with
  | binary op => cases op <;> decide
  | suffixed op => simp [Continuation.level, barrier, Precedence.level]
  | call => simp [Continuation.level, barrier, Precedence.level]

theorem Stops.of_unary_barrier {ts : List Token} (h : Stops (barrier .unary) ts) :
    Stops Precedence.unary.level ts := by
  intro s us c hs hc
  have hlt : c.level < 14 := h s us c hs hc
  have hne : c.level ≠ 13 := c.level_ne_unary
  show c.level < 13
  omega

theorem BinaryOp.level_of_assignment {op : BinaryOp} (h : op.isAssignment = true) :
    op.precedence.level = 1 := by
  cases op <;> first | rfl | cases h

theorem BinaryOp.level_of_not_assignment {op : BinaryOp} (h : op.isAssignment = false) :
    op.precedence.level ≠ 1 := by
  cases op <;> first | decide | cases h

/-- Reading follows every derivation. -/
theorem Derives.readFrom {p : Precedence} {ts : List Token} {t : Reading} (h : Derives p ts t) :
    ReadFrom p ts t := by
  induction h with
  | name s => exact fun n _ rest _ out left hr => .name hr
  | literal s => exact fun n _ rest _ out left hr => .literal hr
  | @group ts t _ ih =>
      intro n _ rest _ out left hr
      have hs : IsClosing ")" := .inl rfl
      have hi := ih.exact (Nat.zero_le 0) (.of_closing hs _ rest) (.of_closing hs _ rest)
      simpa using Reads.group rfl hi hr
  | list items _ ih =>
      intro n _ rest _ out left hr
      simpa using Reads.list rfl (reads_items (.inr rfl) rest items ih) hr
  | @call ts f _ items _ ihf ih =>
      intro n hn rest _ out left hr
      have hc := Reads.call (s := "(") (l := f) rfl hn (reads_items (.inl rfl) rest items ih) hr
      simpa using ihf n hn _ (.of_suffixed_level _) out left hc
  | @suffixed ts t op hop _ ih =>
      intro n hn rest _ out left hr
      have hc := Reads.suffixed (Continuation.of?_suffixed hop) hn hr
      simpa using ih n hn _ (.of_suffixed_level _) out left hc
  | prefixed op hop _ ih =>
      intro n _ rest hb out left hr
      exact .prefixed (Opening.of?_prefixed hop) (ih.exact (Nat.le_refl _) hb hb.of_unary_barrier) hr
  | cast type _ ih =>
      intro n _ rest hb out left hr
      exact .cast (ih.exact (Nat.le_refl _) hb hb.of_unary_barrier) hr
  | @leftward ts us l r q op hop _ hq _ ihl ihr =>
      intro n hn rest hb out left hr
      have hlt : op.precedence.level < q.level := hq
      have hne := BinaryOp.level_of_not_assignment hop
      have hbar : barrier op.precedence = op.precedence.level + 1 := by
        unfold barrier
        split <;> omega
      have hlevel : operandLevel op = op.precedence.level + 1 := by simp [operandLevel, hop]
      have hi : Reads (.expr (operandLevel op)) (us ++ rest) [r] rest := by
        rw [hlevel]
        exact ihr.exact hlt (hb.mono (barrier_mono (Nat.le_of_lt hlt))) (hbar ▸ hb)
      have hc := Reads.binary (l := l) (Continuation.of?_binary op) hn hi hr
      have hst : Stops (barrier op.precedence) (.symbol op.spelling :: (us ++ rest)) :=
        .of_binary (by omega) _
      simpa using ihl n hn _ hst out left hc
  | @rightward ts us l r q op hop hq _ _ ihl ihr =>
      intro n hn rest hb out left hr
      have hlt : op.precedence.level < q.level := hq
      have hone := BinaryOp.level_of_assignment hop
      have hbar : barrier op.precedence = 1 := by simp [barrier, hone]
      have hlevel : operandLevel op = op.precedence.level := by simp [operandLevel, hop]
      have hi : Reads (.expr (operandLevel op)) (us ++ rest) [r] rest := by
        rw [hlevel]
        exact ihr.exact (Nat.le_refl _) hb (by rw [hone, ← hbar]; exact hb)
      have hc := Reads.binary (l := l) (Continuation.of?_binary op) hn hi hr
      have hst : Stops (barrier q) (.symbol op.spelling :: (us ++ rest)) := by
        refine .of_binary ?_ _
        unfold barrier
        split <;> omega
      simpa using ihl n (Nat.le_trans hn (Nat.le_of_lt hlt)) _ hst out left hc
  | looser hle _ ih =>
      exact fun n hn rest hb => ih n (Nat.le_trans hn hle) rest (hb.mono (barrier_mono hle))

/-- **The grammar is unambiguous**: a sequence of tokens has at most one reading. -/
theorem Derives.unique {ts : List Token} {t u : Reading} (ht : Derives .comma ts t)
    (hu : Derives .comma ts u) : t = u := by
  have reads : ∀ {v}, Derives .comma ts v → Reads (.expr 0) ts [v] [] := fun hv => by
    simpa using hv.readFrom.exact (Nat.zero_le _) (.nil _) (.nil _)
  obtain ⟨⟨⟩, -⟩ := (reads ht).unique (reads hu)
  rfl

end Readback
