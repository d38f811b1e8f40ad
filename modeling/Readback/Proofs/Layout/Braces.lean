import Readback.Layout.Page
import Readback.Proofs.Layout.Control

/-! # Lines in braces

A text of lines can be read as a sequence of single lines and blocks without looking at what the lines
say: a line that ends in an opening brace begins a block, a line that begins with a closing brace ends
one, and a line that does both ends the first half of a block and begins the second (`readBlocks`).
Braces elsewhere in a line do not count.

* `BraceTree` is what is read, and `BraceTree.lines` writes it, indented by one level more inside a
  block.
* `BraceTree.Fits` says that every text is of the kind that its place asks for, and stands on one line
  (`BraceText`).
* `Steps n ls m` counts braces along lines, from depth `n` to depth `m`; a line that closes stands at
  the depth that it leads back to. The lines of a tree take such steps (`BraceTree.steps`), so that
  counting braces line by line gives the indentation of each (`Braced`, `Steps.braced`).

Reading the lines of a tree gives the tree again (`read_lines`, `read_linesAll`), and cutting the
rendered text at its line breaks gives the lines (`cutLines_render`). -/

namespace Readback

/-! ### Lines of a text -/

/-- Whether lines are indented with the character. -/
def isBlank (c : Char) : Bool := c == ' ' || c == '\t'

/-- The lines of a text. -/
def cutLines : List Char → List (List Char)
  | [] => []
  | c :: rest =>
    if c = '\n' then [] :: cutLines rest
    else
      match cutLines rest with
      | [] => [[c]]
      | l :: ls => (c :: l) :: ls

theorem cutLines_append {l : List Char} (h : '\n' ∉ l) (rest : List Char) :
    cutLines (l ++ '\n' :: rest) = l :: cutLines rest := by
  induction l with
  | nil => simp [cutLines]
  | cons c l ih =>
      obtain ⟨hc, hl⟩ : c ≠ '\n' ∧ '\n' ∉ l := by simpa [eq_comm] using h
      rw [List.cons_append, cutLines, if_neg hc, ih hl]

/-- Whether a block begins after the line. -/
def opensBrace (l : List Char) : Bool := l.getLast? == some '\x7b'

/-- Whether a block ends before the line. -/
def closesBrace (l : List Char) : Bool := (l.dropWhile isBlank).head? == some '\x7d'

/-- Every line is indented by `n` levels, one more for each block that has begun before it and one
less for each that has ended before it or ends with it, and as many blocks end as begin. -/
structure Braced (unit : String) (n : Nat) (lines : List (List Char)) : Prop where
  indented : ∀ before l after, lines = before ++ l :: after →
    ∃ level text, l = (Page.repeated unit level).toList ++ text ∧
      (∃ c ∈ text.head?, isBlank c = false) ∧
      level + (before ++ [l]).countP closesBrace = n + before.countP opensBrace
  balanced : lines.countP closesBrace = lines.countP opensBrace

/-! ### Trees of blocks -/

/-- A line by itself, a block between its first and its last line, or a block of two halves with a
line between them. -/
inductive BraceTree where
  | line (text : String)
  | block (opener : String) (body : List BraceTree) (closer : String)
  | halves (opener : String) (first : List BraceTree) (turn : String) (second : List BraceTree)
      (closer : String)

/-- A block that is being read: what stands before it, its first line, and its first half with the
line after that. -/
structure OpenBlock where
  before : List BraceTree
  opener : String
  first? : Option (List BraceTree × String)

/-- Puts a line in its place, inside the given blocks, the innermost first, after the given trees. -/
def placeLine (text : String) (closes opens : Bool) (stack : List OpenBlock)
    (items : List BraceTree) : Option (List OpenBlock × List BraceTree) :=
  match closes, opens, stack with
  | false, false, stack => some (stack, items ++ [.line text])
  | false, true, stack => some (⟨items, text, none⟩ :: stack, [])
  | true, true, ⟨before, opener, none⟩ :: outer =>
    some (⟨before, opener, some (items, text)⟩ :: outer, [])
  | true, false, ⟨before, opener, none⟩ :: outer =>
    some (outer, before ++ [.block opener items text])
  | true, false, ⟨before, opener, some (first, turn)⟩ :: outer =>
    some (outer, before ++ [.halves opener first turn items text])
  | _, _, _ => none

/-- Reads lines to the end, inside the given blocks and after the given trees. -/
def readBlocks (stack : List OpenBlock) (items : List BraceTree) :
    List (List Char) → Option (List BraceTree)
  | [] => if stack.isEmpty then some items else none
  | l :: rest =>
    (placeLine (String.ofList (l.dropWhile isBlank)) (closesBrace l) (opensBrace l) stack items).bind
      fun x => readBlocks x.1 x.2 rest

mutual

/-- The lines of a tree at a level. -/
def BraceTree.lines (n : Nat) : BraceTree → List Line
  | .line text => [⟨n, text⟩]
  | .block opener body closer => ⟨n, opener⟩ :: (BraceTree.linesAll (n + 1) body ++ [⟨n, closer⟩])
  | .halves opener first turn second closer =>
    ⟨n, opener⟩ :: (BraceTree.linesAll (n + 1) first ++
      ⟨n, turn⟩ :: (BraceTree.linesAll (n + 1) second ++ [⟨n, closer⟩]))

/-- The lines of several trees at a level. -/
def BraceTree.linesAll (n : Nat) : List BraceTree → List Line
  | [] => []
  | t :: ts => t.lines n ++ BraceTree.linesAll n ts

end

@[simp] theorem BraceTree.linesAll_singleton (n : Nat) (t : BraceTree) :
    linesAll n [t] = t.lines n := by
  simp [linesAll]

theorem BraceTree.linesAll_append (n : Nat) (ts us : List BraceTree) :
    linesAll n (ts ++ us) = linesAll n ts ++ linesAll n us := by
  induction ts with
  | nil => simp [linesAll]
  | cons t ts ih => simp [linesAll, ih]

/-! ### Texts for the places of a tree -/

/-- The text stands on one line from its first character on, and begins with a closing brace or ends
in an opening one as told. -/
structure BraceText (s : String) (closes opens : Bool) : Prop where
  starts : ∃ c ∈ s.toList.head?, isBlank c = false
  closes : closesBrace s.toList = closes
  opens : opensBrace s.toList = opens
  unbroken : Lacks '\n' s

mutual

/-- Every text of the tree is of the kind that its place asks for. -/
def BraceTree.Fits : BraceTree → Prop
  | .line text => BraceText text false false
  | .block opener body closer =>
    BraceText opener false true ∧ BraceTree.FitAll body ∧ BraceText closer true false
  | .halves opener first turn second closer =>
    BraceText opener false true ∧ BraceTree.FitAll first ∧ BraceText turn true true ∧
      BraceTree.FitAll second ∧ BraceText closer true false

/-- Every text of the trees is of the kind that its place asks for. -/
def BraceTree.FitAll : List BraceTree → Prop
  | [] => True
  | t :: ts => t.Fits ∧ BraceTree.FitAll ts

end

theorem BraceTree.fitAll_iff {ts : List BraceTree} : FitAll ts ↔ ∀ t ∈ ts, t.Fits := by
  induction ts with
  | nil => simp [FitAll]
  | cons t ts ih => simp [FitAll, ih]

/-! ### Rendered lines -/

/-- A line as it stands in the text. -/
def Line.raw (unit : String) (l : Line) : List Char :=
  (Page.repeated unit l.level).toList ++ l.text.toList

section Raw

variable {unit : String} (blank : ∀ c ∈ unit.toList, isBlank c) {s : String} {closes opens : Bool}

include blank

theorem Page.repeated_blank (n : Nat) : ∀ c ∈ (repeated unit n).toList, isBlank c := by
  intro c hc
  simp only [repeated, String.toList_join, List.mem_flatMap, List.mem_replicate] at hc
  obtain ⟨_, ⟨-, rfl⟩, hc⟩ := hc
  exact blank c hc

/-- Without its indentation a line is its text. -/
theorem BraceText.dropWhile_raw (h : BraceText s closes opens) (n : Nat) :
    (Line.raw unit ⟨n, s⟩).dropWhile isBlank = s.toList := by
  have hlevel := Page.repeated_blank blank n
  rw [Line.raw, List.dropWhile_append_of_pos hlevel]
  obtain ⟨c, hc, hblank⟩ := h.starts
  cases hs : s.toList with
  | nil => simp [hs] at hc
  | cons d rest =>
      obtain rfl : d = c := by simpa [hs] using hc
      rw [List.dropWhile_cons_of_neg (by simp [hblank])]

theorem BraceText.closesBrace_raw (h : BraceText s closes opens) (n : Nat) :
    closesBrace (Line.raw unit ⟨n, s⟩) = closes := by
  have hself : s.toList.dropWhile isBlank = s.toList := by
    simpa [Line.raw, Page.repeated] using h.dropWhile_raw blank 0
  rw [← h.closes, closesBrace, closesBrace, h.dropWhile_raw blank, hself]

omit blank in
theorem BraceText.opensBrace_raw (h : BraceText s closes opens) (n : Nat) :
    opensBrace (Line.raw unit ⟨n, s⟩) = opens := by
  obtain ⟨c, hc, -⟩ := h.starts
  have hne : s.toList ≠ [] := by
    rintro heq
    simp [heq] at hc
  rw [← h.opens, opensBrace, opensBrace, Line.raw, List.getLast?_append,
    List.getLast?_eq_some_getLast hne, Option.some_or]

theorem BraceText.unbroken_raw (h : BraceText s closes opens) (n : Nat) :
    '\n' ∉ Line.raw unit ⟨n, s⟩ := by
  rw [Line.raw, List.mem_append, not_or]
  exact ⟨fun hn => absurd (Page.repeated_blank blank n _ hn) (by decide), h.unbroken⟩

end Raw

/-- A level of indentation is blank. -/
theorem Indent.blank_unit (i : Indent) : ∀ c ∈ i.unit.toList, isBlank c := by
  cases i with
  | tabs => simp [unit, isBlank]
  | spaces n =>
      show ∀ c ∈ (Nat.repeat (fun s => s.push ' ') n "").toList, isBlank c
      induction n with
      | zero => simp [Nat.repeat]
      | succ n ih =>
          intro c hc
          rw [Nat.repeat, String.toList_push, List.mem_append, List.mem_singleton] at hc
          obtain hc | rfl := hc
          · exact ih c hc
          · decide

/-- The lines of a text are those that it is made of. -/
theorem cutLines_render {unit : String} {ls : List Line} (h : ∀ l ∈ ls, '\n' ∉ Line.raw unit l) :
    cutLines (String.join (ls.map (Page.renderLine unit))).toList = ls.map (Line.raw unit) := by
  induction ls with
  | nil => rfl
  | cons l ls ih =>
      obtain ⟨hl, hls⟩ := List.forall_mem_cons.mp h
      have hrender : (Page.renderLine unit l).toList = Line.raw unit l ++ ['\n'] := by
        simp [Page.renderLine, Line.raw]
      rw [String.toList_join] at ih
      rw [List.map_cons, List.map_cons, String.toList_join, List.flatMap_cons, hrender,
        List.append_assoc, List.singleton_append, cutLines_append hl, ih hls]

/-! ### Levels and braces -/

/-- The lines lead from one depth of blocks to another. A line that closes stands at the depth that it
leads back to. -/
inductive Steps : Nat → List Line → Nat → Prop where
  | nil (n : Nat) : Steps n [] n
  | cons {n m : Nat} {s : String} {closes opens : Bool} {ls : List Line}
      (text : BraceText s closes opens) (rest : Steps (n + opens.toNat) ls m) :
      Steps (n + closes.toNat) (⟨n, s⟩ :: ls) m

namespace Steps

variable {n m k : Nat} {ls ls' : List Line}

theorem append (h : Steps n ls m) (h' : Steps m ls' k) : Steps n (ls ++ ls') k := by
  induction h with
  | nil => exact h'
  | cons text _ ih => exact .cons text (ih h')

theorem line {s : String} (h : BraceText s false false) : Steps n [⟨n, s⟩] n := .cons h (.nil n)

theorem split {l : Line} (h : Steps n (ls ++ l :: ls') m) :
    ∃ closes opens, BraceText l.text closes opens ∧ Steps n ls (l.level + closes.toNat) := by
  induction ls generalizing n with
  | nil =>
      cases h with
      | cons text _ => exact ⟨_, _, text, .nil _⟩
  | cons x ls ih =>
      cases h with
      | cons text rest =>
          obtain ⟨closes, opens, htext, hls⟩ := ih rest
          exact ⟨closes, opens, htext, .cons text hls⟩

/-- Depths count blocks that have begun and not ended. -/
theorem count {unit : String} (blank : ∀ c ∈ unit.toList, isBlank c) (h : Steps n ls m) :
    m + (ls.map (Line.raw unit)).countP closesBrace =
      n + (ls.map (Line.raw unit)).countP opensBrace := by
  induction h with
  | nil => rfl
  | @cons n m s closes opens ls text _ ih =>
      rw [List.map_cons, List.countP_cons, List.countP_cons, text.closesBrace_raw blank,
        text.opensBrace_raw]
      cases closes <;> cases opens <;> simp at ih ⊢ <;> omega

theorem text {l : Line} (h : Steps n ls m) (hl : l ∈ ls) :
    ∃ closes opens, BraceText l.text closes opens := by
  obtain ⟨before, after, rfl⟩ := List.mem_iff_append.mp hl
  obtain ⟨closes, opens, htext, -⟩ := h.split
  exact ⟨closes, opens, htext⟩

/-- Lines that come back to where they begin. -/
theorem braced {unit : String} (blank : ∀ c ∈ unit.toList, isBlank c) (h : Steps n ls n) :
    Braced unit n (ls.map (Line.raw unit)) where
  indented before l after heq := by
    obtain ⟨xs, ys, rfl, rfl, hys⟩ := List.map_eq_append_iff.mp heq
    obtain ⟨x, zs, rfl, rfl, -⟩ := List.map_eq_cons_iff.mp hys
    obtain ⟨closes, opens, htext, hsteps⟩ := h.split
    refine ⟨x.level, x.text.toList, rfl, htext.starts, ?_⟩
    have hcount := hsteps.count blank
    have hclose : closesBrace (Line.raw unit x) = closes := htext.closesBrace_raw blank x.level
    rw [List.countP_append, List.countP_singleton, hclose]
    cases closes <;> simp at hcount ⊢ <;> omega
  balanced := Nat.add_left_cancel (h.count blank)

end Steps

mutual

theorem BraceTree.steps (n : Nat) : ∀ {t : BraceTree}, t.Fits → Steps n (t.lines n) n
  | .line _, h => by
    rw [lines]
    exact .line h
  | .block _ body _, ⟨hopen, hbody, hclose⟩ => by
    rw [lines]
    have hend : Steps (n + 1) [⟨n, _⟩] n := .cons hclose (.nil n)
    exact .cons hopen ((BraceTree.stepsAll (n + 1) hbody).append hend)
  | .halves _ first _ second _, ⟨hopen, hfirst, hturn, hsecond, hclose⟩ => by
    rw [lines]
    have hend : Steps (n + 1) [⟨n, _⟩] n := .cons hclose (.nil n)
    have hrest : Steps (n + 1) (⟨n, _⟩ :: (linesAll (n + 1) second ++ [⟨n, _⟩])) n :=
      .cons hturn ((BraceTree.stepsAll (n + 1) hsecond).append hend)
    exact .cons hopen ((BraceTree.stepsAll (n + 1) hfirst).append hrest)

theorem BraceTree.stepsAll (n : Nat) : ∀ {ts : List BraceTree}, FitAll ts → Steps n (linesAll n ts) n
  | [], _ => by
    rw [linesAll]
    exact .nil n
  | _ :: _, ⟨ht, hts⟩ => by
    rw [linesAll]
    exact (BraceTree.steps n ht).append (BraceTree.stepsAll n hts)

end

/-! ### Reading -/

section Reading

variable {unit : String}

/-- One line is read. -/
theorem readBlocks_cons (blank : ∀ c ∈ unit.toList, isBlank c) {s : String} {closes opens : Bool}
    (h : BraceText s closes opens) (n : Nat) (stack : List OpenBlock) (items : List BraceTree)
    (rest : List (List Char)) :
    readBlocks stack items (Line.raw unit ⟨n, s⟩ :: rest) =
      (placeLine s closes opens stack items).bind fun x => readBlocks x.1 x.2 rest := by
  rw [readBlocks, h.dropWhile_raw blank, h.closesBrace_raw blank, h.opensBrace_raw,
    String.ofList_toList]

mutual

/-- The lines of a tree are read as the tree. -/
theorem read_lines (blank : ∀ c ∈ unit.toList, isBlank c) : ∀ {t : BraceTree}, t.Fits → ∀ (n : Nat)
    (stack : List OpenBlock) (items : List BraceTree) (rest : List (List Char)),
    readBlocks stack items ((t.lines n).map (Line.raw unit) ++ rest) =
      readBlocks stack (items ++ [t]) rest
  | .line _, h, n, stack, items, rest => by
    rw [BraceTree.lines]
    exact readBlocks_cons blank h n stack items rest
  | .block _ body _, ⟨hopen, hbody, hclose⟩, n, stack, items, rest => by
    rw [BraceTree.lines, List.map_cons, List.cons_append, readBlocks_cons blank hopen,
      List.map_append, List.append_assoc]
    refine (read_linesAll blank hbody (n + 1) _ [] _).trans ?_
    exact readBlocks_cons blank hclose n _ _ rest
  | .halves _ first _ second _, ⟨hopen, hfirst, hturn, hsecond, hclose⟩, n, stack, items, rest => by
    rw [BraceTree.lines, List.map_cons, List.cons_append, readBlocks_cons blank hopen,
      List.map_append, List.append_assoc]
    refine (read_linesAll blank hfirst (n + 1) _ [] _).trans ?_
    rw [List.map_cons, List.cons_append, readBlocks_cons blank hturn, List.map_append,
      List.append_assoc]
    refine (read_linesAll blank hsecond (n + 1) _ [] _).trans ?_
    exact readBlocks_cons blank hclose n _ _ rest

/-- The lines of several trees are read as the trees. -/
theorem read_linesAll (blank : ∀ c ∈ unit.toList, isBlank c) : ∀ {ts : List BraceTree},
    BraceTree.FitAll ts → ∀ (n : Nat) (stack : List OpenBlock) (items : List BraceTree)
    (rest : List (List Char)),
    readBlocks stack items ((BraceTree.linesAll n ts).map (Line.raw unit) ++ rest) =
      readBlocks stack (items ++ ts) rest
  | [], _, n, stack, items, rest => by
    rw [BraceTree.linesAll, List.map_nil, List.nil_append, List.append_nil]
  | t :: ts, ⟨ht, hts⟩, n, stack, items, rest => by
    rw [BraceTree.linesAll, List.map_append, List.append_assoc, read_lines blank ht,
      read_linesAll blank hts, List.append_assoc, List.singleton_append]

end

end Reading

end Readback
