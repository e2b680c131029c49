import Mp3Kernel.Library.Lines
import Mp3Kernel.Syscalls.Grep

/-!
# What `do_one_file` prints

The lines in the buffer are printed as they stand in the file, wherever the reads
cut it, with two exceptions. A first byte of the pattern from 0x80 on is compared
as a negative number and matches nothing. And the byte behind a full buffer is
looked at before anything was stored to it: when it happens to be a newline, the
line that is cut there is taken for two.
-/

namespace Mp3Kernel

open Library

namespace Syscalls

/-! ## Lines of a file -/

/-- What is printed for a line. -/
def shown (fname : CString) (line : List UInt8) : List UInt8 := fname.bytes ++ colon :: (line ++ [newline])

/-- What is printed for the lines that `hit` holds for. -/
def printLines (hit : List UInt8 → Bool) (fname : CString) (lines : List (List UInt8)) : List UInt8 :=
  (lines.filter hit).flatMap (shown fname)

/-- The same for the lines of a file, in the order of the file. -/
def printed (hit : List UInt8 → Bool) (fname : CString) (file : List UInt8) : List UInt8 :=
  printLines hit fname (file.splitOn newline)

/-- The pattern occurs in the line. -/
def contains (s : CString) (line : List UInt8) : Bool := decide (s.bytes <:+: line)

/-- What the comparisons of the code find. -/
def finds (s : CString) (line : List UInt8) : Bool := decide (s.bytes.headD 0 < 0x80) && contains s line

/-- The first multiple of 1024 that is in the file and not behind a newline. -/
def firstCut (file : List UInt8) : Option Nat :=
  if file.length < bufsize then none
  else if file.getD (bufsize - 1) 0 = newline then (firstCut (file.drop bufsize)).map (· + bufsize)
  else some bufsize
termination_by file.length
decreasing_by
  rw [List.length_drop]
  exact Nat.sub_lt (by unfold bufsize at *; omega) (by decide)

/-- The file as the code takes it, where `stale` is in the byte behind the buffer. -/
def taken (stale : UInt8) (file : List UInt8) : List UInt8 :=
  if stale = newline then
    match firstCut file with
    | none => file
    | some cut => file.take cut ++ newline :: file.drop cut
  else file

variable {hit : List UInt8 → Bool} {s fname : CString} {file line l r content leftover whole : List UInt8}
  {data : Nat → UInt8} {rounds lineStart left : Nat} {writes writes' writes'' : List Write} {g g' : Grep}

theorem printLines_append (lines lines' : List (List UInt8)) :
    printLines hit fname (lines ++ lines') = printLines hit fname lines ++ printLines hit fname lines' := by
  rw [printLines, List.filter_append, List.flatMap_append]
  rfl

theorem printLines_singleton (line : List UInt8) :
    printLines hit fname [line] = if hit line then shown fname line else [] := by
  cases found : hit line <;> simp [printLines, found]

theorem printed_append_newline :
    printed hit fname (l ++ newline :: r) = printed hit fname l ++ printed hit fname r := by
  rw [printed, List.splitOn_append_cons_self, printLines_append]
  rfl

theorem printed_line (none : newline ∉ line) :
    printed hit fname line = if hit line then shown fname line else [] := by
  rw [printed, List.splitOn_eq_singleton none, printLines_singleton]

theorem printed_nil (empty : hit [] = false) : printed hit fname [] = [] := by
  rw [printed_line List.not_mem_nil, empty]
  rfl

theorem contains_nil (nonempty : s.bytes ≠ []) : contains s [] = false := by
  simpa [contains] using nonempty

theorem finds_nil (nonempty : s.bytes ≠ []) : finds s [] = false := by
  rw [finds, contains_nil nonempty, Bool.and_false]

/-! ## Writes -/

/-- The writes between two points print `bytes` to descriptor 1, and nothing goes elsewhere. -/
def Prints (before after : List Write) (bytes : List UInt8) : Prop :=
  ∃ made, after = before ++ made ∧ (∀ w ∈ made, w.fd = 1) ∧ made.flatMap Write.bytes = bytes

theorem prints_nothing : Prints writes writes [] := ⟨[], (List.append_nil _).symm, List.forall_mem_nil _, rfl⟩

theorem Prints.trans {bytes bytes' : List UInt8} (first : Prints writes writes' bytes)
    (second : Prints writes' writes'' bytes') : Prints writes writes'' (bytes ++ bytes') := by
  obtain ⟨made, rfl, fds, rfl⟩ := first
  obtain ⟨made', rfl, fds', rfl⟩ := second
  refine ⟨made ++ made', List.append_assoc _ _ _, ?_, List.flatMap_append⟩
  exact List.forall_mem_append.mpr ⟨fds, fds'⟩

/-- The rounds that the strings and the buffer need. -/
structure Enough (s fname : CString) (rounds : Nat) : Prop where
  pattern : s.bytes.length < rounds
  name : fname.bytes.length < rounds
  buffer : bufsize < rounds

/-! ## One line -/

theorem toInt_toInt8_eq_iff (c : UInt8) : c.toInt8.toInt = c.toNat ↔ c < 0x80 := by
  have signed : c.toInt8.toInt = (c.toNat : Int).bmod (2 ^ 8) := BitVec.toInt_eq_toNat_bmod c.toBitVec
  have bound := c.toNat_lt
  rw [signed, Int.bmod_def, UInt8.lt_iff_toNat_lt, show (0x80 : UInt8).toNat = 128 from rfl]
  omega

/-- The two comparisons at a place of the line. -/
theorem compare_iff (nonempty : s.bytes ≠ []) {s1 : Nat → UInt8} (text : Text s1 line) :
    ((s.pointer 0).toInt8.toInt = (s1 0).toNat ∧ strncmp s1 s.pointer (UInt32.ofNat s.bytes.length) = 0) ↔
      s.bytes.headD 0 < 0x80 ∧ s.bytes <+: line := by
  rw [strncmp_eq_zero_iff text s.text s.short]
  apply and_congr_left
  rintro ⟨behind, rfl⟩
  have same : s1 0 = s.pointer 0 := by
    obtain ⟨c, cs, split⟩ := List.exists_cons_of_ne_nil nonempty
    have pattern := s.text
    rw [split] at text pattern
    exact text.1.trans pattern.1.symm
  have first : s.pointer 0 = s.bytes.headD 0 := by
    rw [CString.pointer, literal, List.headD_eq_head?_getD, List.head?_eq_getElem?, List.getD_eq_getElem?_getD]
  rw [same, toInt_toInt8_eq_iff, first]

theorem finds_iff : finds s line = true ↔ s.bytes.headD 0 < 0x80 ∧ s.bytes <:+: line := by
  rw [finds, contains, Bool.and_eq_true, decide_eq_true_iff, decide_eq_true_iff]

theorem finds_cons {c : UInt8} (other : ¬(s.bytes.headD 0 < 0x80 ∧ s.bytes <+: c :: line)) :
    finds s (c :: line) = finds s line := by
  rw [Bool.eq_iff_iff, finds_iff, finds_iff, List.infix_cons_iff]
  constructor
  · rintro ⟨low, here | later⟩
    · exact absurd ⟨low, here⟩ other
    · exact ⟨low, later⟩
  · exact fun ⟨low, later⟩ => ⟨low, .inr later⟩

/-- The four writes for a line. -/
theorem fdputs_line (enough : Enough s fname rounds) (text : Text (fun k => data (lineStart + k)) line)
    (short : line.length ≤ bufsize) :
    ∃ writes', (do
        let writes ← fdputs rounds 1 fname.pointer writes
        let writes ← fdputs rounds 1 (literal [colon]) writes
        let writes ← fdputs rounds 1 (fun k => data (lineStart + k)) writes
        fdputs rounds 1 (literal [newline]) writes) = some writes' ∧ Prints writes writes' (shown fname line) := by
  have buffer := enough.buffer
  rw [bufsize] at buffer short
  have byte (c : UInt8) (nonzero : c ≠ 0) : Text (literal [c]) [c] :=
    literal_text (List.forall_mem_singleton.mpr nonzero)
  refine ⟨writes ++ [⟨1, fname.bytes⟩, ⟨1, [colon]⟩, ⟨1, line⟩, ⟨1, [newline]⟩], ?_, _, rfl, ?_, ?_⟩
  · rw [fdputs_eq fname.text enough.name fname.short]
    simp only [Option.bind_eq_bind, Option.bind_some]
    rw [fdputs_eq (byte colon (by decide)) (show 1 < rounds by omega) (by simp)]
    simp only [Option.bind_some]
    rw [fdputs_eq text (by omega) (by omega)]
    simp only [Option.bind_some]
    rw [fdputs_eq (byte newline (by decide)) (show 1 < rounds by omega) (by simp)]
    simp only [List.append_assoc, List.cons_append, List.nil_append]
  · simp
  · simp [shown]

theorem searchLine_prints (nonempty : s.bytes ≠ []) (enough : Enough s fname rounds)
    (text : Text (fun k => data (lineStart + k)) line) (short : line.length ≤ bufsize) :
    ∃ writes', Grep.searchLine rounds s fname (UInt32.ofNat s.bytes.length) lineStart data writes line.length
        lineStart = some writes' ∧ Prints writes writes' (if finds s line then shown fname line else []) := by
  have from_index (rest before : List UInt8) (split : line = before ++ rest) :
      ∃ writes', Grep.searchLine rounds s fname (UInt32.ofNat s.bytes.length) lineStart data writes rest.length
          (lineStart + before.length) = some writes' ∧
        Prints writes writes' (if finds s rest then shown fname line else []) := by
    induction rest generalizing before with
    | nil =>
      refine ⟨writes, rfl, ?_⟩
      rw [finds_nil nonempty]
      exact prints_nothing
    | cons c cs ih =>
      have here : Text (fun k => data (lineStart + before.length + k)) (c :: cs) := by
        rw [split] at text
        simpa only [Nat.add_assoc] using text.drop
      have compared := compare_iff nonempty here
      rw [Nat.add_zero] at compared
      rw [List.length_cons, Grep.searchLine]
      by_cases hit : s.bytes.headD 0 < 0x80 ∧ s.bytes <+: c :: cs
      · rw [if_pos (compared.mpr hit), if_pos (finds_iff.mpr ⟨hit.1, hit.2.isInfix⟩)]
        exact fdputs_line enough text short
      · rw [if_neg (mt compared.mp hit), finds_cons hit]
        have next := ih (before ++ [c]) (by rw [split, List.append_assoc]; rfl)
        rw [List.length_append] at next
        exact next
  exact from_index line [] rfl

/-! ## One buffer -/

theorem findEnd_eq (holds : Holds data lineStart line) (none : newline ∉ line)
    (stop : left = line.length ∨ (line.length < left ∧ data (lineStart + line.length) = newline)) :
    Grep.findEnd data left lineStart = lineStart + line.length := by
  induction line generalizing left lineStart with
  | nil =>
    rcases stop with rfl | ⟨more, stop⟩
    · rfl
    · obtain ⟨left, rfl⟩ : ∃ n, left = n + 1 := Nat.exists_eq_add_of_le' more
      exact if_pos stop
  | cons c cs ih =>
    rw [List.mem_cons, not_or] at none
    rw [List.length_cons] at stop ⊢
    obtain ⟨left, rfl⟩ : ∃ n, left = n + 1 := Nat.exists_eq_add_of_le' (show 1 ≤ left by omega)
    have here : data lineStart = c := holds 0 (Nat.succ_pos _)
    have behind : Holds data (lineStart + 1) cs := (holds_append (l := [c]).mp holds).2
    rw [Grep.findEnd, here, if_neg (Ne.symm none.1), ih behind none.2 ?_]
    · exact Nat.succ_add_eq_add_succ _ _
    · rw [Nat.succ_add_eq_add_succ]
      exact stop.imp Nat.succ.inj fun both => ⟨Nat.lt_of_succ_lt_succ both.1, both.2⟩

/-- How the scan of a buffer ends: behind a newline; with the line that is cut kept for the next read; or
with this line taken for a whole one. -/
inductive Outcome (s fname : CString) (cnt : Int32) (lineStart : Nat) (content : List UInt8) (g g' : Grep)
    (bytes : List UInt8) : List UInt8 → Prop where
  | ended (stop : content = [] ∨ content.getLast? = some newline)
      (behind : g'.data.bytes bufsize = g.data.bytes bufsize)
      (lines : ∀ r, printed (finds s) fname (content ++ r) = bytes ++ printed (finds s) fname r) :
      Outcome s fname cnt lineStart content g g' bytes []
  | moved {leftover : List UInt8} (byte : g.data.bytes g.last ≠ newline) (more : cnt ≠ 0)
      (behind : g'.data.bytes bufsize = if g.last = bufsize then 0 else g.data.bytes bufsize)
      (lines : ∀ r, printed (finds s) fname (content ++ r) = bytes ++ printed (finds s) fname (leftover ++ r)) :
      Outcome s fname cnt lineStart content g g' bytes leftover
  | closed (cut : content.getLast? ≠ some newline)
      (reason : g.data.bytes g.last = newline ∨ cnt = 0 ∨ (lineStart = 0 ∧ newline ∉ content))
      (behind : g'.data.bytes bufsize = if g.last = bufsize then 0 else g.data.bytes bufsize)
      (lines : ∀ r, printed (finds s) fname (content ++ newline :: r) = bytes ++ printed (finds s) fname r) :
      Outcome s fname cnt lineStart content g g' bytes []

/-- What the scan of a buffer leaves for the next read. -/
structure Leaves (g g' : Grep) (bytes content leftover : List UInt8) : Prop where
  remaining : g'.remaining = g.remaining
  writes : Prints g.writes g'.writes bytes
  last : g'.last = leftover.length
  short : leftover.length < bufsize
  holds : Holds g'.data.bytes 0 leftover
  suffix : leftover <:+ content
  unbroken : newline ∉ leftover

/-- A line at the start of the content is printed, and the scan goes on behind its newline. -/
theorem Outcome.behind_line {cnt : Int32} {g₁ : Grep} {bytes bytes' : List UInt8} (none : newline ∉ line)
    (rest : content ≠ []) (same : g₁.last = g.last) (byte : g₁.data.bytes g.last = g.data.bytes g.last)
    (behind : g₁.data.bytes bufsize = g.data.bytes bufsize)
    (own : bytes = if finds s line then shown fname line else [])
    (outcome : Outcome s fname cnt (lineStart + line.length + 1) content g₁ g' bytes' leftover) :
    Outcome s fname cnt lineStart (line ++ newline :: content) g g' (bytes ++ bytes') leftover := by
  have last : (line ++ newline :: content).getLast? = content.getLast? := by
    rw [List.getLast?_append_of_ne_nil _ (List.cons_ne_nil _ _), List.getLast?_cons_of_ne_nil rest]
  have first (r : List UInt8) :
      printed (finds s) fname (line ++ newline :: r) = bytes ++ printed (finds s) fname r := by
    rw [printed_append_newline, printed_line none, own]
  have split (r : List UInt8) : (line ++ newline :: content) ++ r = line ++ newline :: (content ++ r) := by
    rw [List.append_assoc, List.cons_append]
  cases outcome with
  | ended stop unchanged lines =>
    refine .ended (.inr ?_) (unchanged.trans behind) fun r => ?_
    · rw [last]
      exact stop.resolve_left rest
    · rw [split, first, lines, List.append_assoc]
  | moved other more unchanged lines =>
    rw [same] at other unchanged
    refine .moved (byte ▸ other) more (behind ▸ unchanged) fun r => ?_
    rw [split, first, lines, List.append_assoc]
  | closed cut reason unchanged lines =>
    rw [same] at reason unchanged
    refine .closed (last ▸ cut) ?_ (behind ▸ unchanged) fun r => ?_
    · rcases reason with stale | done | ⟨zero, _⟩
      · exact .inl (byte ▸ stale)
      · exact .inr (.inl done)
      · exact absurd zero (Nat.succ_ne_zero _)
    · rw [split, first, lines, List.append_assoc]

/-- A line is searched when the byte behind it has become a NUL. -/
theorem search_prints (writes : List Write) (nonempty : s.bytes ≠ []) (enough : Enough s fname rounds)
    {a : LocalArray} (holds : Holds a.bytes lineStart line) (nonzero : ∀ c ∈ line, c ≠ 0)
    (short : line.length ≤ bufsize) :
    ∃ writes', Grep.searchLine rounds s fname (UInt32.ofNat s.bytes.length) lineStart
        (a.store (lineStart + line.length) 0).bytes writes (lineStart + line.length - lineStart) lineStart =
        some writes' ∧ Prints writes writes' (if finds s line then shown fname line else []) := by
  rw [Nat.add_sub_cancel_left]
  refine searchLine_prints nonempty enough (Holds.text ?_ nonzero (Function.update_self _ _ _)) short
  exact holds.keep fun i _ below => Function.update_of_ne (Nat.ne_of_lt below) _ _

/-- The last line of a buffer, when no newline ends it. -/
theorem scan_unbroken (cnt : Int32) (nonempty : s.bytes ≠ []) (enough : Enough s fname rounds)
    (holds : Holds g.data.bytes lineStart content) (position : g.last = lineStart + content.length)
    (room : g.last ≤ bufsize) (nonzero : ∀ c ∈ content, c ≠ 0) (start : content ≠ [] ∨ lineStart = 0)
    (member : newline ∉ content) :
    ∃ g' bytes leftover,
      Grep.scanBuffer rounds s fname (UInt32.ofNat s.bytes.length) cnt (left + 1) lineStart g = some g' ∧
        Leaves g g' bytes content leftover ∧ Outcome s fname cnt lineStart content g g' bytes leftover := by
  rw [Grep.scanBuffer, show g.last - lineStart = content.length by omega, findEnd_eq holds member (.inl rfl),
    ← position]
  have cut : content.getLast? ≠ some newline := fun last => member (List.mem_of_getLast? last)
  have behind : (g.data.store g.last 0).bytes bufsize = if g.last = bufsize then 0 else g.data.bytes bufsize := by
    rw [LocalArray.store_bytes, Function.update_apply]
    simp only [eq_comm]
  by_cases keep : g.data.bytes g.last ≠ newline ∧ cnt ≠ 0 ∧ lineStart ≠ 0
  · -- The line is moved to the front of the buffer, for the next read to go on with.
    have source : Holds (g.data.store g.last 0).bytes lineStart content :=
      holds.keep fun i _ below => Function.update_of_ne (by omega) _ _
    have text := source.text nonzero (by rw [← position]; exact Function.update_self _ _ _)
    have copied : strcpy (fun data k => data.bytes (lineStart + k)) 0 rounds 0 (g.data.store g.last 0) =
        some ((g.data.store g.last 0).storeList 0 (content ++ [0])) := by
      have buffer := enough.buffer
      exact strcpy_eq (fun b k same => same _ (by omega)) text (by omega)
    simp only [if_pos keep, copied, Option.bind_eq_bind, Option.bind_some]
    have short : content.length < bufsize := by omega
    refine ⟨_, [], content, rfl, ⟨rfl, prints_nothing, rfl, short, ?_, List.suffix_refl _, member⟩, ?_⟩
    · exact (holds_append.mp LocalArray.holds_storeList).1
    · refine .moved keep.1 keep.2.1 ?_ fun r => rfl
      rw [LocalArray.storeList_outside (.inr (by rw [List.length_append, List.length_singleton]; omega)),
        behind]
  · have short : content.length ≤ bufsize := by omega
    -- It is searched as if it ended here.
    obtain ⟨writes', search, prints⟩ := search_prints g.writes nonempty enough holds nonzero short
    rw [← position] at search
    simp only [if_neg keep, search, Option.bind_eq_bind, Option.bind_some, if_pos (Nat.le_succ g.last)]
    refine ⟨_, _, [], rfl, ⟨rfl, prints, rfl, by decide, holds_nil, List.nil_suffix, List.not_mem_nil⟩, ?_⟩
    by_cases empty : content = []
    · have front : lineStart = 0 := start.resolve_left (not_not.mpr empty)
      subst empty
      rw [front, List.length_nil, Nat.add_zero] at position
      refine .ended (.inl rfl) ?_ fun r => ?_
      · rw [behind, if_neg (by rw [position]; decide)]
      · rw [finds_nil nonempty]
        rfl
    · refine .closed cut ?_ behind fun r => ?_
      · by_contra others
        push Not at others
        exact keep ⟨others.1, others.2.1, fun zero => member (others.2.2 zero)⟩
      · rw [printed_append_newline, printed_line member]

theorem scanBuffer_prints (cnt : Int32) (nonempty : s.bytes ≠ []) (enough : Enough s fname rounds)
    (holds : Holds g.data.bytes lineStart content) (position : g.last = lineStart + content.length)
    (room : g.last ≤ bufsize) (nonzero : ∀ c ∈ content, c ≠ 0) (start : content ≠ [] ∨ lineStart = 0)
    (more : content.length < left) :
    ∃ g' bytes leftover,
      Grep.scanBuffer rounds s fname (UInt32.ofNat s.bytes.length) cnt left lineStart g = some g' ∧
        Leaves g g' bytes content leftover ∧ Outcome s fname cnt lineStart content g g' bytes leftover := by
  induction left generalizing lineStart g content with
  | zero => exact absurd more (Nat.not_lt_zero _)
  | succ left ih =>
    by_cases member : newline ∈ content
    · obtain ⟨line, rest, rfl, none⟩ := List.eq_append_cons_of_mem member
      rw [Grep.scanBuffer, show g.last - lineStart = (line ++ newline :: rest).length by omega]
      obtain ⟨front, behind⟩ := holds_append.mp holds
      obtain ⟨nonzeroLine, nonzeroRest⟩ := List.forall_mem_append.mp nonzero
      have byte : g.data.bytes (lineStart + line.length) = newline := behind 0 (Nat.succ_pos _)
      rw [List.length_append, List.length_cons] at position more ⊢
      rw [findEnd_eq front none (.inr ⟨by omega, byte⟩)]
      obtain ⟨writes', search, prints⟩ := search_prints g.writes nonempty enough front nonzeroLine
        (by omega)
      simp only [byte, ne_eq, not_true, false_and, if_false, search, Option.bind_eq_bind, Option.bind_some]
      -- The newline becomes a NUL; the line was searched, and the rest is as it was.
      have other (i : Nat) (differ : i ≠ lineStart + line.length) :
          (g.data.store (lineStart + line.length) 0).bytes i = g.data.bytes i := Function.update_of_ne differ _ _
      by_cases last : rest = []
      · subst last
        rw [if_pos (by simp only [List.length_nil] at position; omega)]
        refine ⟨_, _, [], rfl, ⟨rfl, prints, rfl, by decide, holds_nil, List.nil_suffix, List.not_mem_nil⟩, ?_⟩
        refine .ended (.inr ?_) (other _ (by omega)) fun r => ?_
        · exact List.getLast?_concat
        · rw [List.append_assoc, List.cons_append, printed_append_newline, printed_line none]
          rfl
      · have length : 0 < rest.length := List.length_pos_of_ne_nil last
        rw [if_neg (by omega)]
        have later : Holds (g.data.store (lineStart + line.length) 0).bytes (lineStart + line.length + 1) rest :=
          Holds.keep (holds_append (l := [newline]).mp behind).2 fun i low _ => other i (by omega)
        obtain ⟨g', bytes, leftover, result, leaves, outcome⟩ :=
          ih (g := { g with data := g.data.store (lineStart + line.length) 0, writes := writes' }) later
            (by simp only; omega) room (fun c inside => nonzeroRest c (List.mem_cons_of_mem _ inside)) (.inl last)
            (by omega)
        refine ⟨g', (if finds s line then shown fname line else []) ++ bytes, leftover, result, ?_, ?_⟩
        · refine ⟨leaves.remaining, prints.trans leaves.writes, leaves.last, leaves.short, leaves.holds, ?_,
            leaves.unbroken⟩
          exact leaves.suffix.trans (List.suffix_append_of_suffix (List.suffix_cons _ _))
        · exact outcome.behind_line none last (by rfl) (other _ (by omega)) (other _ (by omega)) rfl
    · exact scan_unbroken cnt nonempty enough holds position room nonzero start member

/-! ## The file as the code takes it -/

theorem taken_fresh {stale : UInt8} (other : stale ≠ newline) : taken stale file = file := if_neg other

theorem taken_short {stale : UInt8} (short : file.length < bufsize) : taken stale file = file := by
  rw [taken, firstCut, if_pos short]
  exact ite_self file

theorem getLast_take (long : bufsize ≤ file.length) :
    (file.take bufsize).getLast? = some (file.getD (bufsize - 1) 0) := by
  rw [List.getLast?_eq_getElem?, List.length_take, Nat.min_eq_left long, List.getElem?_take_of_lt (by decide),
    List.getD_eq_getElem?_getD, List.getElem?_eq_getElem (Nat.lt_of_lt_of_le (by decide) long), Option.getD_some]

theorem taken_block (long : bufsize ≤ file.length) (last : (file.take bufsize).getLast? = some newline) :
    taken newline file = file.take bufsize ++ taken newline (file.drop bufsize) := by
  rw [getLast_take long, Option.some.injEq] at last
  rw [taken, firstCut, if_neg (Nat.not_lt.mpr long), if_pos last, taken]
  simp only [if_true]
  cases firstCut (file.drop bufsize) with
  | none => exact (List.take_append_drop _ _).symm
  | some cut =>
    simp only [Option.map_some]
    rw [Nat.add_comm, List.take_add, List.drop_drop, List.append_assoc]

theorem taken_cut (long : bufsize ≤ file.length) (last : (file.take bufsize).getLast? ≠ some newline) :
    taken newline file = file.take bufsize ++ newline :: file.drop bufsize := by
  rw [getLast_take long, ne_eq, Option.some.injEq] at last
  rw [taken, firstCut, if_neg (Nat.not_lt.mpr long), if_neg last]
  simp only [if_true]

/-- What is printed for a buffer and for what is left behind it is what the file asks for. -/
theorem Outcome.printed_taken {cnt : Int32} {bytes : List UInt8} (nonempty : s.bytes ≠ [])
    (outcome : Outcome s fname cnt 0 (whole.take bufsize) g g' bytes leftover)
    (short : leftover.length < bufsize) (last : g.last = (whole.take bufsize).length)
    (done : cnt = 0 → whole.length < bufsize) (line : bufsize ≤ whole.length → newline ∈ whole.take bufsize) :
    printed (finds s) fname (taken (g.data.bytes bufsize) whole) =
      bytes ++ printed (finds s) fname (taken (g'.data.bytes bufsize) (leftover ++ whole.drop bufsize)) := by
  have zero : (0 : UInt8) ≠ newline := by decide
  by_cases small : whole.length < bufsize
  · -- The buffer has all that is left of the file.
    have empty : printed (finds s) fname [] = [] := printed_nil (finds_nil nonempty)
    rw [List.take_of_length_le (Nat.le_of_lt small)] at outcome
    rw [taken_short small, List.drop_eq_nil_of_le (Nat.le_of_lt small), List.append_nil, taken_short short]
    cases outcome with
    | ended _ _ lines => simpa using lines []
    | moved _ _ _ lines => simpa using lines []
    | closed _ _ _ lines =>
      have all := lines []
      rw [printed_append_newline, empty, List.append_nil] at all
      rw [all, empty]
  · have long : bufsize ≤ whole.length := Nat.not_lt.mp small
    rw [List.length_take, Nat.min_eq_left long] at last
    cases outcome with
    | ended stop behind lines =>
      have stop := stop.resolve_left fun empty => by
        have length := congrArg List.length empty
        rw [List.length_take, Nat.min_eq_left long] at length
        exact absurd length (by decide)
      rw [behind, List.nil_append]
      by_cases stale : g.data.bytes bufsize = newline
      · rw [stale, taken_block long stop, lines]
      · have all := lines (whole.drop bufsize)
        rw [List.take_append_drop] at all
        rw [taken_fresh stale, taken_fresh stale, all]
    | moved byte _ behind lines =>
      rw [last] at byte
      rw [if_pos last] at behind
      have all := lines (whole.drop bufsize)
      rw [List.take_append_drop] at all
      rw [behind, taken_fresh byte, taken_fresh zero, all]
    | closed cut reason behind lines =>
      rw [last] at reason
      rw [if_pos last] at behind
      have stale : g.data.bytes bufsize = newline := by
        rcases reason with stale | empty | ⟨_, none⟩
        · exact stale
        · exact absurd (done empty) small
        · exact absurd (line long) none
      rw [behind, stale, taken_cut long cut, taken_fresh zero, List.nil_append, lines]

/-! ## The reads -/

/-- The system calls succeed, and a read returns as many bytes as it is asked for and the file still has. -/
structure FullReads (files : Files) : Prop where
  opened : files.opened ≠ -1
  read : ∀ remaining nbytes, nbytes ≤ bufsize → files.read remaining nbytes = Int32.ofNat (min nbytes remaining)
  closed : files.closed ≠ -1

/-- The numbers that a read returns are not negative, and only 0 stands for 0. -/
theorem count_result {count : Nat} (small : count ≤ bufsize) :
    (Int32.ofNat count).toNatClampNeg = count ∧ Int32.ofNat count ≠ -1 ∧ (Int32.ofNat count = 0 ↔ count = 0) := by
  have below : count < 2 ^ 31 := Nat.lt_of_le_of_lt small (by decide)
  have value := Int32.toInt_ofNat_of_lt below
  refine ⟨Int32.toNatClampNeg_ofNat_of_lt below, fun failed => ?_, fun zero => ?_, fun zero => ?_⟩
  · rw [failed] at value
    exact absurd value (Int.ne_of_lt (Int.lt_of_lt_of_le (by decide) (Int.natCast_nonneg count)))
  · rw [zero] at value
    exact (Int.natCast_eq_zero.mp value.symm)
  · rw [zero]
    rfl

/-- A read behind the line that is kept: the buffer has the next 1024 bytes of the file, or all that are
left, and the byte behind it is untouched. -/
theorem read_fills {a : LocalArray} {part file : List UInt8} {count : Nat} (holds : Holds a.bytes 0 part)
    (short : part.length < bufsize) (counted : count = min (bufsize - part.length) file.length) :
    Holds (a.storeList part.length (file.take count)).bytes 0 ((part ++ file).take bufsize) ∧
      ((part ++ file).take bufsize).length = part.length + count ∧
      file.drop count = (part ++ file).drop bufsize ∧
      (a.storeList part.length (file.take count)).bytes bufsize = a.bytes bufsize := by
  have length : (file.take count).length = count := by
    rw [List.length_take]
    omega
  have content : part ++ file.take count = (part ++ file).take bufsize := by
    rw [List.take_append, List.take_of_length_le (Nat.le_of_lt short), counted, ← List.take_eq_take_min]
  rw [← content]
  refine ⟨holds_append.mpr ⟨?_, ?_⟩, ?_, ?_, LocalArray.storeList_outside (.inr (by omega))⟩
  · exact holds.keep fun i _ below => LocalArray.storeList_outside (.inl (by omega))
  · rw [Nat.zero_add]
    exact LocalArray.holds_storeList
  · rw [List.length_append, length]
  · rw [List.drop_append, List.drop_eq_nil_of_le (Nat.le_of_lt short), counted, ← List.drop_eq_drop_min]
    rfl

/-- What a read of `count` bytes and the scan behind it have done. -/
structure ReadRound (s fname : CString) (g g' : Grep) (part : List UInt8) (count : Nat) (bytes leftover : List UInt8) :
    Prop where
  remaining : g'.remaining = (part ++ g.remaining).drop bufsize
  writes : Prints g.writes g'.writes bytes
  last : g'.last = leftover.length
  short : leftover.length < bufsize
  holds : Holds g'.data.bytes 0 leftover
  suffix : leftover ++ g'.remaining <:+ part ++ g.remaining
  nothing : count = 0 → leftover = []
  lines : printed (finds s) fname (taken (g.data.bytes bufsize) (part ++ g.remaining)) =
    bytes ++ printed (finds s) fname (taken (g'.data.bytes bufsize) (leftover ++ g'.remaining))

theorem readLoop_round {files : Files} {part : List UInt8} (full : FullReads files) (nonempty : s.bytes ≠ [])
    (enough : Enough s fname rounds) (holds : Holds g.data.bytes 0 part) (last : g.last = part.length)
    (short : part.length < bufsize) (nonzero : ∀ c ∈ part ++ g.remaining, c ≠ 0)
    (lines : ∀ line ∈ (part ++ g.remaining).splitOn newline, line.length ≤ 1023) {count : Nat}
    (counted : count = min (bufsize - part.length) g.remaining.length) (left : Nat) :
    ∃ g' bytes leftover,
      Grep.readLoop files rounds s fname (UInt32.ofNat s.bytes.length) (left + 1) g =
        (if count = 0 then some (true, g')
        else Grep.readLoop files rounds s fname (UInt32.ofNat s.bytes.length) left g') ∧
      ReadRound s fname g g' part count bytes leftover := by
  have buffer := enough.buffer
  have long : (part ++ g.remaining).length = part.length + g.remaining.length := List.length_append
  have whole : (part ++ g.remaining).take bufsize ++ (part ++ g.remaining).drop bufsize = part ++ g.remaining :=
    List.take_append_drop _ _
  have result := full.read g.remaining.length (bufsize - g.last) (Nat.sub_le _ _)
  rw [last, ← counted] at result
  have small : count ≤ bufsize := by omega
  obtain ⟨value, success, finished⟩ := count_result small
  obtain ⟨filled, total, remaining, unread⟩ := read_fills holds short counted
  rw [← last] at filled total unread
  obtain ⟨g', bytes, leftover, scanned, leaves, outcome⟩ :=
    scanBuffer_prints (Int32.ofNat count)
      (g := ⟨g.data.storeList g.last (g.remaining.take count), g.last + count, g.remaining.drop count, g.writes⟩)
      nonempty enough filled (by rw [total, Nat.zero_add]) (by simp only; omega)
      (fun c member => nonzero c (List.mem_of_mem_take member)) (.inr rfl) (show _ < rounds by omega)
  have left_over : g'.remaining = (part ++ g.remaining).drop bufsize := leaves.remaining.trans remaining
  refine ⟨g', bytes, leftover, ?_, left_over, leaves.writes, leaves.last, leaves.short, leaves.holds, ?_, ?_, ?_⟩
  · rw [Grep.readLoop, last, result, value, ← last]
    simp only [if_neg success, Option.bind_eq_bind, scanned, Option.bind_some, finished]
  · rw [left_over]
    conv => rhs; rw [← whole]
    exact (List.suffix_append_inj_of_length_eq rfl).mpr ⟨leaves.suffix, rfl⟩
  · intro empty
    cases outcome with
    | ended => rfl
    | moved _ more => exact absurd (finished.mpr empty) more
    | closed => rfl
  · -- A block without a newline would be a line that is too long.
    have round := outcome.printed_taken nonempty leaves.short total.symm (fun zero => by
      have empty := finished.mp zero
      omega) (fun full => by
      rw [← whole] at lines
      exact mem_of_longer lines (by rw [List.length_take, Nat.min_eq_left full]; decide))
    rw [unread] at round
    rw [round, left_over]

theorem readLoop_prints {files : Files} {part : List UInt8} (full : FullReads files) (nonempty : s.bytes ≠ [])
    (enough : Enough s fname rounds) (holds : Holds g.data.bytes 0 part) (last : g.last = part.length)
    (short : part.length < bufsize) (nonzero : ∀ c ∈ part ++ g.remaining, c ≠ 0)
    (lines : ∀ line ∈ (part ++ g.remaining).splitOn newline, line.length ≤ 1023)
    (more : g.remaining.length < left) :
    ∃ g', Grep.readLoop files rounds s fname (UInt32.ofNat s.bytes.length) left g = some (true, g') ∧
      Prints g.writes g'.writes
        (printed (finds s) fname (taken (g.data.bytes bufsize) (part ++ g.remaining))) := by
  induction left generalizing g part with
  | zero => exact absurd more (Nat.not_lt_zero _)
  | succ left ih =>
    obtain ⟨count, counted⟩ : ∃ count, count = min (bufsize - part.length) g.remaining.length := ⟨_, rfl⟩
    obtain ⟨g', bytes, leftover, result, round⟩ :=
      readLoop_round full nonempty enough holds last short nonzero lines counted left
    have behind : g'.remaining.length = part.length + g.remaining.length - bufsize := by
      rw [round.remaining, List.length_drop, List.length_append]
    rw [result, round.lines]
    by_cases zero : count = 0
    · -- The read was at the end of the file.
      have none : g'.remaining = [] := List.eq_nil_of_length_eq_zero (by omega)
      have nothing : taken (g'.data.bytes bufsize) [] = [] := taken_short (by decide)
      rw [round.nothing zero, none, List.append_nil, nothing, printed_nil (finds_nil nonempty), List.append_nil]
      exact ⟨g', if_pos zero, round.writes⟩
    · obtain ⟨front, split⟩ := round.suffix
      rw [← split] at nonzero lines
      obtain ⟨g'', rest, prints⟩ := ih round.holds round.last round.short
        (fun c member => nonzero c (List.mem_append_right _ member)) (length_le_of_suffix lines) (by omega)
      exact ⟨g'', (if_neg zero).trans rest, round.writes.trans prints⟩

theorem doOneFile_prints {files : Files} (full : FullReads files) (nonempty : s.bytes ≠ [])
    (enough : Enough s fname rounds) (nonzero : ∀ c ∈ file, c ≠ 0)
    (lines : ∀ line ∈ file.splitOn newline, line.length ≤ 1023) (more : file.length < rounds) :
    ∃ g, doOneFile files rounds s fname data file = some (0, g) ∧
      Prints [] g.writes (printed (finds s) fname (taken (data bufsize) file)) := by
  obtain ⟨g, result, prints⟩ := readLoop_prints (g := ⟨⟨data, []⟩, 0, file, []⟩) full nonempty enough
    (holds_nil : Holds data 0 []) rfl (by decide) nonzero lines more
  refine ⟨g, ?_, prints⟩
  rw [doOneFile, strlen_eq s.text enough.pattern]
  simp only [Option.bind_eq_bind, Option.bind_some, if_neg full.opened, result, Bool.true_eq_false, if_false,
    if_neg full.closed]

/-! ## The matching lines -/

/-- `do_one_file` returns 0 and has printed the lines with the pattern, and nothing else. -/
def PrintsMatches (files : Files) (s fname : CString) (data : Nat → UInt8) (file : List UInt8) : Prop :=
  ∃ bound, ∀ rounds ≥ bound, ∃ g, doOneFile files rounds s fname data file = some (0, g) ∧
    (∀ w ∈ g.writes, w.fd = 1) ∧ g.writes.flatMap Write.bytes = printed (contains s) fname file

/-- The line around a cut of the file ends there, or does not have the pattern. -/
def Harmless (s : CString) (file : List UInt8) (cut : Nat) : Prop :=
  firstPiece newline (file.drop cut) = [] ∨
    ¬s.bytes <:+: lastPiece newline (file.take cut) ++ firstPiece newline (file.drop cut)

theorem printsMatches_iff_printed {files : Files} (full : FullReads files) (nonempty : s.bytes ≠ [])
    (nonzero : ∀ c ∈ file, c ≠ 0) (lines : ∀ line ∈ file.splitOn newline, line.length ≤ 1023) :
    PrintsMatches files s fname data file ↔
      printed (finds s) fname (taken (data bufsize) file) = printed (contains s) fname file := by
  obtain ⟨least, leastEq⟩ : ∃ n, n = s.bytes.length + fname.bytes.length + file.length + bufsize + 1 := ⟨_, rfl⟩
  have runs (rounds : Nat) (more : least ≤ rounds) :
      ∃ g, doOneFile files rounds s fname data file = some (0, g) ∧
        Prints [] g.writes (printed (finds s) fname (taken (data bufsize) file)) :=
    doOneFile_prints full nonempty ⟨by omega, by omega, by omega⟩ nonzero lines (by omega)
  constructor
  · rintro ⟨bound, prints⟩
    obtain ⟨g, result, made, split, _, all⟩ := runs (max bound least) (Nat.le_max_right _ _)
    obtain ⟨g', result', _, bytes⟩ := prints (max bound least) (Nat.le_max_left _ _)
    obtain rfl : g = g' := congrArg Prod.snd (Option.some.inj (result.symm.trans result'))
    rw [← bytes, split, List.nil_append, all]
  · intro same
    refine ⟨least, fun rounds more => ?_⟩
    obtain ⟨g, result, made, split, fds, all⟩ := runs rounds more
    rw [List.nil_append] at split
    exact ⟨g, result, split ▸ fds, by rw [split, all, same]⟩

theorem firstCut_spec {cut : Nat} (found : firstCut file = some cut) :
    0 < cut ∧ cut ≤ file.length ∧ file.getD (cut - 1) 0 ≠ newline := by
  fun_induction firstCut file generalizing cut with
  | case1 file short => exact nomatch found
  | case2 file long last ih =>
    obtain ⟨inner, later, rfl⟩ := Option.map_eq_some_iff.mp found
    obtain ⟨positive, inside, other⟩ := ih later
    rw [List.length_drop] at inside
    refine ⟨by omega, by omega, ?_⟩
    rw [List.getD_eq_getElem?_getD, List.getElem?_drop] at other
    rw [List.getD_eq_getElem?_getD, show inner + bufsize - 1 = bufsize + (inner - 1) by omega]
    exact other
  | case3 file long other =>
    obtain rfl := Option.some.inj found
    exact ⟨by decide, by omega, other⟩

/-- The line in front of a cut is not empty. -/
theorem lastPiece_cut_ne_nil {cut : Nat} (found : firstCut file = some cut) :
    lastPiece newline (file.take cut) ≠ [] := by
  obtain ⟨positive, inside, other⟩ := firstCut_spec found
  obtain ⟨cut, rfl⟩ : ∃ n, cut = n + 1 := Nat.exists_eq_add_of_le' positive
  rw [Nat.add_sub_cancel, List.getD_eq_getElem?_getD, List.getElem?_eq_getElem inside, Option.getD_some] at other
  rw [← List.take_concat_get' _ _ inside, lastPiece_append _ other]
  exact List.concat_ne_nil _ _

/-- What is printed for a file in two parts: the line at the seam is the only one that is in neither. -/
theorem printed_append : printed hit fname (l ++ r) = printLines hit fname (l.splitOn newline).dropLast ++
    (printLines hit fname [lastPiece newline l ++ firstPiece newline r] ++
      printLines hit fname (r.splitOn newline).tail) := by
  rw [printed, splitOn_append, printLines_append]
  exact congrArg _ (printLines_append [_] _)

theorem printed_front : printed hit fname l =
    printLines hit fname (l.splitOn newline).dropLast ++ printLines hit fname [lastPiece newline l] :=
  (congrArg (printLines hit fname) (splitOn_eq_append_last newline l)).trans (printLines_append _ _)

theorem printed_behind : printed hit fname r =
    printLines hit fname [firstPiece newline r] ++ printLines hit fname (r.splitOn newline).tail :=
  (congrArg (printLines hit fname) (splitOn_eq_first_cons newline r)).trans (printLines_append [_] _)

theorem length_shown (line : List UInt8) : (shown fname line).length = fname.bytes.length + line.length + 2 := by
  rw [shown, List.length_append, List.length_cons, List.length_append, List.length_singleton]
  omega

/-- A line in two parts is not printed as two lines. -/
theorem printLines_parts_iff {front behind : List UInt8} (nonempty : s.bytes ≠ []) (some_front : front ≠ []) :
    printLines (contains s) fname [front] ++ printLines (contains s) fname [behind] =
        printLines (contains s) fname [front ++ behind] ↔
      behind = [] ∨ ¬s.bytes <:+: front ++ behind := by
  rw [printLines_singleton, printLines_singleton, printLines_singleton]
  constructor
  · intro same
    by_contra both
    push Not at both
    have found : contains s (front ++ behind) = true := decide_eq_true both.2
    have length := congrArg List.length same
    have positive : 0 < front.length := List.length_pos_of_ne_nil some_front
    have positive' : 0 < behind.length := List.length_pos_of_ne_nil both.1
    rw [if_pos found, List.length_append, length_shown, List.length_append] at length
    split at length <;> split at length <;>
      simp only [length_shown, List.length_nil] at length <;> omega
  · rintro (rfl | none)
    · rw [contains_nil nonempty, List.append_nil]
      exact List.append_nil _
    · have whole : contains s (front ++ behind) = false := decide_eq_false none
      have first : contains s front = false :=
        decide_eq_false fun found => none (found.trans (List.infix_append' [] front behind))
      have second : contains s behind = false :=
        decide_eq_false fun found => none (found.trans (List.suffix_append front behind).isInfix)
      rw [whole, first, second]
      rfl

/-- The lines of a file that is cut are printed like those of the whole file when the cut is harmless. -/
theorem printed_taken_iff {stale : UInt8} (nonempty : s.bytes ≠ []) :
    printed (contains s) fname (taken stale file) = printed (contains s) fname file ↔
      (stale = newline → ∀ cut, firstCut file = some cut → Harmless s file cut) := by
  by_cases byte : stale = newline
  · rw [taken, if_pos byte]
    cases found : firstCut file with
    | none => simp [byte]
    | some cut =>
      have whole := List.take_append_drop cut file
      simp only [byte, forall_const, Option.some.injEq, forall_eq']
      have seam : printed (contains s) fname (file.take cut ++ file.drop cut) = _ := printed_append
      rw [whole] at seam
      rw [seam, printed_append_newline, printed_front, printed_behind, List.append_assoc,
        List.append_cancel_left_eq, ← List.append_assoc, List.append_cancel_right_eq,
        printLines_parts_iff nonempty (lastPiece_cut_ne_nil found)]
      rfl
  · rw [taken_fresh byte]
    exact ⟨fun _ stale => absurd stale byte, fun _ => rfl⟩

theorem printed_eq_nil_iff : printed hit fname file = [] ↔ ∀ line ∈ file.splitOn newline, hit line = false := by
  rw [printed, printLines, List.flatMap_eq_nil_iff]
  constructor
  · intro none line member
    by_contra found
    have empty := none line (List.mem_filter.mpr ⟨member, Bool.eq_true_of_not_eq_false found⟩)
    exact List.append_ne_nil_of_right_ne_nil _ (List.cons_ne_nil _ _) empty
  · intro none line member
    rw [List.mem_filter] at member
    exact absurd (none line member.1) (by rw [member.2]; decide)

theorem mem_seam (cut : Nat) :
    lastPiece newline (file.take cut) ++ firstPiece newline (file.drop cut) ∈ file.splitOn newline := by
  have split := splitOn_append newline (file.take cut) (file.drop cut)
  rw [List.take_append_drop] at split
  rw [split]
  exact List.mem_append_right _ List.mem_cons_self

/-- `do_one_file` prints the matching lines exactly when no line has the pattern, or the pattern starts with
a byte below 0x80 and the first cut of a line is harmless or the byte behind the buffer is no newline. -/
theorem do_one_file_prints_iff {files : Files} (full : FullReads files) (s fname : CString)
    (nonempty : s.bytes ≠ []) (data : Nat → UInt8) (file : List UInt8) (nonzero : ∀ c ∈ file, c ≠ 0)
    (lines : ∀ line ∈ file.splitOn newline, line.length ≤ 1023) :
    PrintsMatches files s fname data file ↔
      (∀ line ∈ file.splitOn newline, ¬s.bytes <:+: line) ∨
        (s.bytes.headD 0 < 0x80 ∧
          (data bufsize = newline → ∀ cut, firstCut file = some cut → Harmless s file cut)) := by
  rw [printsMatches_iff_printed full nonempty nonzero lines]
  by_cases low : s.bytes.headD 0 < 0x80
  · have same : finds s = contains s := funext fun line => by rw [finds, decide_eq_true low, Bool.true_and]
    rw [same, printed_taken_iff nonempty]
    constructor
    · exact fun harmless => .inr ⟨low, harmless⟩
    · rintro (none | ⟨_, harmless⟩)
      · exact fun _ cut _ => .inr (none _ (mem_seam cut))
      · exact harmless
  · have nothing (file : List UInt8) : printed (finds s) fname file = [] :=
      printed_eq_nil_iff.mpr fun line _ => by rw [finds, decide_eq_false low, Bool.false_and]
    rw [nothing, eq_comm, printed_eq_nil_iff, or_iff_left fun both => low both.1]
    exact forall₂_congr fun line _ => decide_eq_false_iff_not

/-! ## Files -/

/-- A file of any length, and system calls that succeed. -/
def sampleFiles : Files := ⟨2, fun remaining nbytes => Int32.ofNat (min nbytes remaining), 0⟩

theorem sampleFiles_full : FullReads sampleFiles := ⟨by decide, fun _ _ _ => rfl, by decide⟩

def patternA : CString := ⟨[0x61], by simp, by decide⟩

/-- `"bc"` and `"é"` of an 8-bit character set -/
def patternBc : CString := ⟨[0x62, 0x63], by simp, by decide⟩

def patternE9 : CString := ⟨[0xE9], by simp, by decide⟩

/-- 1022 times `a`, a newline, and `bc`. -/
def cutFile : List UInt8 := List.replicate 1022 0x61 ++ [newline, 0x62, 0x63]

theorem cutFile_lines : cutFile.splitOn newline = [List.replicate 1022 0x61, [0x62, 0x63]] := by
  have none : newline ∉ List.replicate 1022 (0x61 : UInt8) := fun member =>
    absurd (List.eq_of_mem_replicate member) (by decide)
  rw [cutFile, List.splitOn_append_cons_self_of_not_mem none, List.splitOn_eq_singleton (by decide)]

theorem cutFile_cut : firstCut cutFile = some bufsize ∧
    cutFile.take bufsize = List.replicate 1022 0x61 ++ newline :: [0x62] ∧ cutFile.drop bufsize = [0x63] := by
  have front : (List.replicate 1022 (0x61 : UInt8)).length = 1022 := List.length_replicate
  have length : cutFile.length = 1025 := by rw [cutFile, List.length_append, front]; rfl
  have take : cutFile.take bufsize = List.replicate 1022 0x61 ++ newline :: [0x62] := by
    rw [cutFile, List.take_append, List.take_of_length_le (by rw [front]; decide), front]
    rfl
  have drop : cutFile.drop bufsize = [0x63] := by
    rw [cutFile, List.drop_append, List.drop_eq_nil_of_le (by rw [front]; decide), front]
    rfl
  have last := getLast_take (show bufsize ≤ cutFile.length by rw [length]; decide)
  rw [take, List.getLast?_append_of_ne_nil _ (List.cons_ne_nil _ _)] at last
  refine ⟨?_, take, drop⟩
  rw [firstCut, if_neg (by rw [length]; decide), if_neg (by rw [← Option.some.inj last]; decide)]

theorem cutFile_nonzero : ∀ c ∈ cutFile, c ≠ 0 :=
  List.forall_mem_append.mpr ⟨fun c member => List.eq_of_mem_replicate member ▸ by decide, by simp [newline]⟩

theorem cutFile_short : ∀ line ∈ cutFile.splitOn newline, line.length ≤ 1023 := by
  rw [cutFile_lines, List.forall_mem_cons, List.length_replicate]
  exact ⟨by decide, by decide⟩

/-- The line `bc` is cut at byte 1024 and found when the rest has been read; with a newline behind the buffer the
cut does no harm to the line before. -/
theorem do_one_file_prints_sample :
    PrintsMatches sampleFiles patternBc patternE9 (fun _ => 0) cutFile ∧
    PrintsMatches sampleFiles patternA patternE9 (fun _ => newline) cutFile := by
  refine ⟨(do_one_file_prints_iff sampleFiles_full patternBc patternE9 (by decide) (fun _ => 0) cutFile cutFile_nonzero
      cutFile_short).mpr (.inr ⟨by decide, fun stale => absurd stale (by decide)⟩),
    (do_one_file_prints_iff sampleFiles_full patternA patternE9 (by decide) (fun _ => newline) cutFile cutFile_nonzero
      cutFile_short).mpr (.inr ⟨by decide, fun _ cut found => ?_⟩)⟩
  obtain ⟨first, take, drop⟩ := cutFile_cut
  obtain rfl : bufsize = cut := Option.some.inj (first.symm.trans found)
  rw [Harmless, take, drop, lastPiece_append_cons]
  decide

theorem cutFile_not_harmless : ¬Harmless patternBc cutFile bufsize := by
  obtain ⟨_, take, drop⟩ := cutFile_cut
  rw [Harmless, take, drop, lastPiece_append_cons]
  decide

/-- With a newline behind the buffer the line `bc` of the file is taken for two, and a byte from 0x80 on is
not found at all. -/
theorem do_one_file_misses :
    ((∀ c ∈ cutFile, c ≠ 0) ∧ (∀ line ∈ cutFile.splitOn newline, line.length ≤ 1023) ∧
        ¬PrintsMatches sampleFiles patternBc patternBc (fun _ => newline) cutFile) ∧
      ¬PrintsMatches sampleFiles patternE9 patternBc (fun _ => 0) [0xE9] := by
  refine ⟨⟨cutFile_nonzero, cutFile_short, ?_⟩, ?_⟩
  · rw [printsMatches_iff_printed sampleFiles_full (by decide) cutFile_nonzero cutFile_short]
    have same : finds patternBc = contains patternBc := funext fun line => rfl
    rw [same, printed_taken_iff (by decide)]
    exact fun harmless => cutFile_not_harmless (harmless rfl bufsize cutFile_cut.1)
  · rw [printsMatches_iff_printed sampleFiles_full (by decide) (by simp) (by decide), taken_fresh (by decide)]
    decide

end Syscalls

end Mp3Kernel
