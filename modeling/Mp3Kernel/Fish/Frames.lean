import Mp3Kernel.Fish.Basic
import Mp3Kernel.Library.Lines

/-!
# The blinkers of two frames

`add_frames` knows only the last character of each file. The calls it makes are
those of two pages of text laid on one another: one blinker for each place that
is not blank on both, with the characters of the two pages, row by row.
-/

namespace Mp3Kernel

open Library

namespace Fish

/-! ## Pages -/

/-- The page has this character in row `r`, column `c`: a blank where the row or the page is shorter. -/
def cell (page : List (List UInt8)) (r c : Nat) : UInt8 := (page.getD r []).getD c space

/-- The call for a place with the characters `a` and `b`. -/
def charCalls (user : Blinker) (row col : Nat) (a b : UInt8) : List FrameCall :=
  if a ≠ space ∨ b ≠ space then
    [.add { user with onChar := a, offChar := b, location := UInt16.ofNat (row * 80 + col + 40) }]
  else []

/-- The calls for a row of each page, from column `col` on. -/
def lineCalls (user : Blinker) (row col : Nat) (l0 l1 : List UInt8) : List FrameCall :=
  sideBySide (fun c a b => charCalls user row (col + c) a b) space l0 l1

/-- The calls for two pages from row `row` on. A file is closed behind its last row, and again behind
every later row of the other one. -/
def pageCalls (user : Blinker) (fd0 fd1 : Int32) (row : Nat) (page0 page1 : List (List UInt8)) :
    List FrameCall :=
  sideBySide (fun r l0 l1 => lineCalls user (row + r) 0 l0 l1 ++
    ((if page0.length ≤ r + 1 then [.close fd0] else []) ++
      if page1.length ≤ r + 1 then [.close fd1] else [])) [] page0 page1

/-! ## One file -/

variable {s : Side} {l l0 l1 : List UInt8} {rest rest0 rest1 file file0 file1 : Option (List UInt8)}
  {f f' : AddFrames} {user : Blinker} {rounds columns : Nat}

/-- The row is read up to its end; `rest` is what the file has behind it, `none` at the end of the file. -/
structure Ended (s : Side) (rest : Option (List UInt8)) : Prop where
  c : s.c = newline
  eof : s.eof = rest.isNone
  unread : s.unread = (rest.getD []).map some

/-- The row still has the characters `l`. -/
inductive InRow (s : Side) : List UInt8 → Option (List UInt8) → Prop
  | more {l : List UInt8} {rest : Option (List UInt8)} (c : s.c ≠ newline) (eof : s.eof = false)
      (unread : s.unread = (l ++ (rest.map (newline :: ·)).getD []).map some) (none : newline ∉ l) : InRow s l rest
  | ended {rest : Option (List UInt8)} (ended : Ended s rest) : InRow s [] rest

/-- A row is about to begin; `file` is none when there are no more. -/
def AtRow (s : Side) : Option (List UInt8) → Prop
  | none => Ended s none
  | some file => s.c ≠ newline ∧ s.eof = false ∧ s.unread = file.map some

/-- The rows that are to come. -/
def rowsOf : Option (List UInt8) → List (List UInt8)
  | none => []
  | some file => file.splitOn newline

theorem rowsOf_eq_nil : rowsOf file = [] ↔ file = none := by
  cases file with
  | none => exact iff_of_true rfl rfl
  | some file => exact iff_of_false (List.splitOn_ne_nil newline file) (Option.some_ne_none file)

theorem InRow.readChar (inRow : InRow s l rest) :
    InRow s.readChar l.tail rest ∧ s.readChar.c = l.headD newline := by
  cases inRow with
  | more c eof unread none =>
    cases l with
    | nil =>
      -- The newline comes, or the end of the file.
      cases rest with
      | none =>
        have last : s.readChar = { s with c := newline, eof := true } := by
          rw [Side.readChar, if_pos c, unread]
          rfl
        rw [last]
        exact ⟨.ended ⟨rfl, rfl, unread⟩, rfl⟩
      | some file =>
        have line : s.readChar = { s with c := newline, unread := file.map some } := by
          rw [Side.readChar, if_pos c, unread]
          rfl
        rw [line]
        exact ⟨.ended ⟨rfl, eof, rfl⟩, rfl⟩
    | cons c' cs =>
      have read : s.readChar =
          { s with c := c', unread := (cs ++ (rest.map (newline :: ·)).getD []).map some } := by
        rw [Side.readChar, if_pos c, unread]
        rfl
      rw [List.mem_cons, not_or] at none
      rw [read]
      exact ⟨.more (Ne.symm none.1) eof rfl none.2, rfl⟩
  | ended ended =>
    have same : s.readChar = s := if_neg (not_not.mpr ended.c)
    rw [same]
    exact ⟨.ended ended, ended.c⟩

/-- Nothing of the row is left when both characters are newlines. -/
theorem InRow.ended_of_newline (inRow : InRow s l rest) (c : s.c = newline) : l = [] ∧ Ended s rest := by
  cases inRow with
  | more other => exact absurd c other
  | ended ended => exact ⟨rfl, ended⟩

theorem AtRow.inRow (atRow : AtRow s file) :
    ∃ rest, InRow s ((rowsOf file).headD []) rest ∧ rowsOf rest = (rowsOf file).tail := by
  cases file with
  | none => exact ⟨none, .ended atRow, rfl⟩
  | some file =>
    obtain ⟨c, eof, unread⟩ := atRow
    by_cases member : newline ∈ file
    · obtain ⟨line, behind, rfl, none⟩ := List.eq_append_cons_of_mem member
      have rows : rowsOf (some (line ++ newline :: behind)) = line :: behind.splitOn newline :=
        List.splitOn_append_cons_self_of_not_mem none _
      rw [rows]
      exact ⟨some behind, .more c eof unread none, rfl⟩
    · have rows : rowsOf (some file) = [file] := List.splitOn_eq_singleton member
      rw [rows]
      exact ⟨none, .more c eof (by simpa using unread) member, rfl⟩

theorem Ended.atRow (ended : Ended s rest) : AtRow s.endRow rest := by
  cases rest with
  | none =>
    have same : s.endRow = { s with c := newline } := if_pos ended.eof
    rw [same]
    exact ⟨rfl, ended.eof, ended.unread⟩
  | some file =>
    have next : s.endRow = { s with c := zeroChar } := if_neg (by rw [ended.eof]; exact Bool.false_ne_true)
    rw [next]
    exact ⟨(by decide : zeroChar ≠ newline), ended.eof, ended.unread⟩

/-! ## A row -/

/-- The character of a blinker for a place: behind the end of a row it is blank. -/
def shown (c : UInt8) : UInt8 := if c = newline then space else c

theorem InRow.not_mem (inRow : InRow s l rest) : newline ∉ l := by
  cases inRow with
  | more _ _ _ none => exact none
  | ended => exact List.not_mem_nil

theorem headD_eq_newline (none : newline ∉ l) : l.headD newline = newline ↔ l = [] := by
  cases l with
  | nil => exact iff_of_true rfl rfl
  | cons c l =>
    have other : c ≠ newline := fun same => none (same ▸ List.mem_cons_self)
    exact iff_of_false other (List.cons_ne_nil c l)

theorem shown_headD (none : newline ∉ l) : shown (l.headD newline) = l.headD space := by
  cases l with
  | nil => exact if_pos rfl
  | cons c l =>
    have other : c ≠ newline := fun same => none (same ▸ List.mem_cons_self)
    exact if_neg other

/-- `blink_struct` has changed in the fields that a place sets only. -/
def Struct (user b : Blinker) : Prop :=
  ∃ a o location, b = { user with onChar := a, offChar := o, location := location }

theorem addChars_calls (struct : Struct user f.blinkStruct) :
    ∃ b, Struct user b ∧ f.addChars = { f with
      blinkStruct := b
      calls := f.calls ++ charCalls user f.row f.col (shown f.side0.c) (shown f.side1.c) } := by
  have char (c : UInt8) : (c ≠ space ∧ c ≠ newline) ↔ shown c ≠ space := by
    rw [shown]
    split
    next same => exact iff_of_false (fun both => both.2 same) (not_not.mpr rfl)
    next other => exact and_iff_left other
  obtain ⟨a, o, location, same⟩ := struct
  simp only [AddFrames.addChars, char, charCalls]
  split
  next =>
    refine ⟨{ user with
      onChar := shown f.side0.c
      offChar := shown f.side1.c
      location := UInt16.ofNat (f.row * 80 + f.col + 40) }, ⟨_, _, _, rfl⟩, ?_⟩
    rw [same]
    rfl
  next =>
    refine ⟨f.blinkStruct, ⟨a, o, location, same⟩, ?_⟩
    rw [List.append_nil]

theorem lineCalls_step (user : Blinker) (row col : Nat) (more : l0 ≠ [] ∨ l1 ≠ []) :
    lineCalls user row col l0 l1 =
      charCalls user row col (l0.headD space) (l1.headD space) ++ lineCalls user row (col + 1) l0.tail l1.tail := by
  rw [lineCalls, sideBySide_step more]
  simp only [Nat.add_zero, lineCalls, Nat.add_assoc, Nat.add_comm 1]

/-- What a row of the two files makes of the variables. -/
structure RowDone (user : Blinker) (f : AddFrames) (rowCalls : List FrameCall) (rest0 rest1 : Option (List UInt8))
    (f' : AddFrames) : Prop where
  ended0 : Ended f'.side0 rest0
  ended1 : Ended f'.side1 rest1
  fd0 : f'.fd0 = f.fd0
  fd1 : f'.fd1 = f.fd1
  row : f'.row = f.row
  struct : Struct user f'.blinkStruct
  calls : f'.calls = f.calls ++ rowCalls

theorem rowLoop_done (enough0 : l0.length < columns) (enough1 : l1.length < columns)
    (inRow0 : InRow f.side0 l0 rest0) (inRow1 : InRow f.side1 l1 rest1) (struct : Struct user f.blinkStruct) :
    ∃ f', AddFrames.rowLoop columns f = some f' ∧
      RowDone user f (lineCalls user f.row f.col l0 l1) rest0 rest1 f' := by
  induction columns generalizing f l0 l1 with
  | zero => exact absurd enough0 (Nat.not_lt_zero _)
  | succ columns ih =>
    obtain ⟨next0, c0⟩ := inRow0.readChar
    obtain ⟨next1, c1⟩ := inRow1.readChar
    rw [AddFrames.rowLoop]
    by_cases last : l0 = [] ∧ l1 = []
    · obtain ⟨rfl, rfl⟩ := last
      exact ⟨f.readChars, if_pos ⟨c0, c1⟩, (next0.ended_of_newline c0).2, (next1.ended_of_newline c1).2,
        rfl, rfl, rfl, struct, (List.append_nil _).symm⟩
    · have char : ¬(f.readChars.side0.c = newline ∧ f.readChars.side1.c = newline) := by
        show ¬(f.side0.readChar.c = newline ∧ f.side1.readChar.c = newline)
        rwa [c0, c1, headD_eq_newline inRow0.not_mem, headD_eq_newline inRow1.not_mem]
      have more : l0 ≠ [] ∨ l1 ≠ [] := not_and_or.mp last
      -- The place is visited, and the others of the row come behind it.
      obtain ⟨b, struct', place⟩ : ∃ b, Struct user b ∧ f.readChars.addChars = { f.readChars with
          blinkStruct := b
          calls := f.calls ++ charCalls user f.row f.col (l0.headD space) (l1.headD space) } := by
        have visit := addChars_calls (f := f.readChars) struct
        simp only [AddFrames.readChars, c0, c1, shown_headD inRow0.not_mem, shown_headD inRow1.not_mem] at visit
        exact visit
      rw [if_neg char, place]
      have positive : 0 < l0.length ∨ 0 < l1.length :=
        more.imp List.length_pos_of_ne_nil List.length_pos_of_ne_nil
      obtain ⟨f', runs, done⟩ := ih (f := { f.readChars with
          blinkStruct := b
          calls := f.calls ++ charCalls user f.row f.col (l0.headD space) (l1.headD space)
          col := f.col + 1 })
        (by rw [List.length_tail]; omega) (by rw [List.length_tail]; omega) next0 next1 struct'
      refine ⟨f', runs, done.ended0, done.ended1, done.fd0, done.fd1, done.row, done.struct, ?_⟩
      rw [done.calls, lineCalls_step user f.row f.col more, ← List.append_assoc]
      rfl

/-! ## The pages -/

theorem pageCalls_step (user : Blinker) (fd0 fd1 : Int32) (row : Nat) {page0 page1 : List (List UInt8)}
    (more : page0 ≠ [] ∨ page1 ≠ []) : pageCalls user fd0 fd1 row page0 page1 =
      lineCalls user row 0 (page0.headD []) (page1.headD []) ++ ((if page0.tail = [] then [.close fd0] else []) ++
        if page1.tail = [] then [.close fd1] else []) ++ pageCalls user fd0 fd1 (row + 1) page0.tail page1.tail := by
  have last (page : List (List UInt8)) : page.length ≤ 0 + 1 ↔ page.tail = [] := by
    rw [← List.length_eq_zero_iff, List.length_tail]
    omega
  have later (page : List (List UInt8)) (r : Nat) : page.length ≤ r + 1 + 1 ↔ page.tail.length ≤ r + 1 := by
    rw [List.length_tail]
    omega
  rw [pageCalls, sideBySide_step more]
  simp only [last, later, Nat.add_zero, pageCalls, Nat.add_assoc, Nat.add_comm 1]

theorem AtRow.eof (atRow : AtRow s file) : s.eof = file.isNone := by
  cases file with
  | none => exact Ended.eof atRow
  | some _ => exact atRow.2.1

/-- The call behind a row that closes the file. -/
theorem closes (fd : Int32) (ended : Ended s rest) (rows : rowsOf rest = (rowsOf file).tail) :
    (if s.eof then [FrameCall.close fd] else []) = if (rowsOf file).tail = [] then [.close fd] else [] := by
  rw [ended.eof, ← rows]
  simp only [rowsOf_eq_nil, Option.isNone_iff_eq_none]

theorem headD_length_lt {page : List (List UInt8)} (room : 0 < columns) (wide : ∀ l ∈ page, l.length < columns) :
    (page.headD []).length < columns := by
  cases page with
  | nil => exact room
  | cons l page => exact wide l List.mem_cons_self

theorem frameLoop_calls {rows : Nat} (enough0 : (rowsOf file0).length < rows)
    (enough1 : (rowsOf file1).length < rows) (wide0 : ∀ l ∈ rowsOf file0, l.length < columns)
    (wide1 : ∀ l ∈ rowsOf file1, l.length < columns) (atRow0 : AtRow f.side0 file0)
    (atRow1 : AtRow f.side1 file1) (struct : Struct user f.blinkStruct) :
    ∃ f', AddFrames.frameLoop columns rows f = some f' ∧
      f'.calls = f.calls ++ pageCalls user f.fd0 f.fd1 f.row (rowsOf file0) (rowsOf file1) := by
  induction rows generalizing f file0 file1 with
  | zero => exact absurd enough0 (Nat.not_lt_zero _)
  | succ rows ih =>
    have going : (f.side0.eof = false ∨ f.side1.eof = false) ↔ rowsOf file0 ≠ [] ∨ rowsOf file1 ≠ [] := by
      rw [atRow0.eof, atRow1.eof, Ne, Ne, rowsOf_eq_nil, rowsOf_eq_nil]
      cases file0 <;> cases file1 <;> simp
    rw [AddFrames.frameLoop]
    by_cases more : rowsOf file0 ≠ [] ∨ rowsOf file1 ≠ []
    · have positive : 0 < (rowsOf file0).length ∨ 0 < (rowsOf file1).length :=
        more.imp List.length_pos_of_ne_nil List.length_pos_of_ne_nil
      have room : 0 < columns := by
        rcases more with more | more <;> obtain ⟨l, member⟩ := List.exists_mem_of_ne_nil _ more
        · exact Nat.zero_lt_of_lt (wide0 l member)
        · exact Nat.zero_lt_of_lt (wide1 l member)
      -- Both files give a row, an empty one where a file has ended.
      obtain ⟨rest0, inRow0, rows0⟩ := atRow0.inRow
      obtain ⟨rest1, inRow1, rows1⟩ := atRow1.inRow
      obtain ⟨g, runs, done⟩ := rowLoop_done (f := { f with col := 0 }) (headD_length_lt room wide0)
        (headD_length_lt room wide1) inRow0 inRow1 struct
      obtain ⟨f', further, calls⟩ := ih (f := g.endRow)
        (by rw [rows0, List.length_tail]; omega) (by rw [rows1, List.length_tail]; omega)
        (fun l member => wide0 l (List.mem_of_mem_tail (rows0 ▸ member)))
        (fun l member => wide1 l (List.mem_of_mem_tail (rows1 ▸ member))) done.ended0.atRow done.ended1.atRow
        done.struct
      refine ⟨f', ?_, ?_⟩
      · rw [if_pos (going.mpr more), runs]
        exact further
      · have closing : g.endRow.calls = g.calls ++ (if g.side0.eof then [.close g.fd0] else []) ++
            (if g.side1.eof then [.close g.fd1] else []) := rfl
        have counted : g.endRow.row = f.row + 1 := congrArg (· + 1) done.row
        have same0 : g.endRow.fd0 = f.fd0 := done.fd0
        have same1 : g.endRow.fd1 = f.fd1 := done.fd1
        rw [calls, closing, closes _ done.ended0 rows0, closes _ done.ended1 rows1, done.calls, counted, same0,
          same1, rows0, rows1, pageCalls_step user f.fd0 f.fd1 f.row more, done.fd0, done.fd1]
        simp only [List.append_assoc]
    · rw [if_neg (going.not.mpr more)]
      rw [not_or, not_not, not_not] at more
      refine ⟨f, rfl, ?_⟩
      rw [more.1, more.2]
      exact (List.append_nil _).symm

/-- For two files that can be read, `add_frames` returns, and its calls are those of the two pages. -/
theorem addFrames_calls {fd0 fd1 : Int32} {page0 page1 : List UInt8} (opened0 : 0 ≤ fd0) (opened1 : 0 ≤ fd1)
    (enough0 : page0.length + 1 < rounds) (enough1 : page1.length + 1 < rounds) (stack : Blinker) :
    addFrames rounds stack fd0 fd1 (page0.map some) (page1.map some) =
      some (pageCalls { stack with onLength := 15, offLength := 15 } fd0 fd1 0 (page0.splitOn newline)
        (page1.splitOn newline)) := by
  have start : zeroChar ≠ newline := by decide
  have short (page : List UInt8) (enough : page.length + 1 < rounds) :
      (rowsOf (some page)).length < rounds ∧ ∀ l ∈ rowsOf (some page), l.length < rounds :=
    ⟨Nat.lt_of_le_of_lt length_splitOn_le enough, fun l member =>
      Nat.lt_of_le_of_lt (length_le_of_mem_splitOn member) (Nat.lt_of_succ_lt enough)⟩
  have struct : Struct { stack with onLength := 15, offLength := 15 }
      { stack with onLength := 15, offLength := 15 } := ⟨_, _, _, rfl⟩
  obtain ⟨f, runs, calls⟩ := frameLoop_calls
    (f := ⟨fd0, fd1, ⟨zeroChar, false, page0.map some⟩, ⟨zeroChar, false, page1.map some⟩, 0, 0,
      { stack with onLength := 15, offLength := 15 }, []⟩)
    (short page0 enough0).1 (short page1 enough1).1 (short page0 enough0).2 (short page1 enough1).2
    ⟨start, rfl, rfl⟩ ⟨start, rfl, rfl⟩ struct
  rw [addFrames, if_neg (Int32.not_lt.mpr opened0), if_neg (Int32.not_lt.mpr opened1), runs]
  exact congrArg some calls

end Fish

end Mp3Kernel
