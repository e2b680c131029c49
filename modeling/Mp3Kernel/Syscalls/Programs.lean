import Mp3Kernel.Syscalls.Matches
import Mp3Kernel.Syscalls.Shell

/-!
# `ls`, `cat` and `grep`

The programs that go through the directory or a file. A read of the emulated
directory delivers 32 bytes for every name: what is longer is cut off, and what is
shorter is filled up with NULs. What the other system calls return is given.
-/

namespace Mp3Kernel

open Library

namespace Syscalls

/-! ## `ece391_read` for the directory -/

/-- `while (nbytes > copied && 32 > copied)`, where `32 - copied` is counted down. -/
def padName (nbytes : Int32) : Nat → Nat → LocalArray → Int32 × LocalArray
  | 0, copied, buf => (Int32.ofNat copied, buf)
  | left + 1, copied, buf =>
    if (copied : Int) < nbytes.toInt then padName nbytes left (copied + 1) (buf.store copied 0)
    else (Int32.ofNat copied, buf)

/-- `while ('\0' != *from)`, for the rest of the name. -/
def copyName (nbytes : Int32) : List UInt8 → Nat → LocalArray → Int32 × LocalArray
  | [], copied, buf => padName nbytes (32 - copied) copied buf
  | c :: name, copied, buf =>
    let buf := buf.store copied c
    let copied := copied + 1
    if (copied : Int) = nbytes.toInt then (nbytes, buf)
    else if copied = 32 then (32, buf)
    else copyName nbytes name copied buf

/-- `entry` is what `readdir` returns. -/
def readDirectory (nbytes : Int32) (entry : Option CString) (buf : LocalArray) : Int32 × LocalArray :=
  match entry with
  | none => (0, buf)
  | some name => copyName nbytes name.bytes 0 buf

/-- The 32 bytes for a name. -/
def record (name : CString) : List UInt8 := (name.bytes ++ List.replicate 32 0).take 32

variable {nbytes : Int32} {n copied left rounds : Nat} {buf : LocalArray} {l : List UInt8}

theorem padName_eq (size : n = min nbytes.toInt.toNat 32) (before : copied ≤ n) (total : copied + left = 32) :
    padName nbytes left copied buf = (Int32.ofNat n, buf.storeList copied (List.replicate (n - copied) 0)) := by
  induction left generalizing copied buf with
  | zero =>
    obtain rfl : n = copied := by omega
    rw [padName, Nat.sub_self]
    rfl
  | succ left ih =>
    rw [padName]
    split
    next more =>
      have count : n - copied = n - (copied + 1) + 1 := by omega
      rw [ih (by omega) (by omega), count]
      rfl
    next =>
      obtain rfl : n = copied := by omega
      rw [Nat.sub_self]
      rfl

theorem ofNat_toInt (positive : 0 < nbytes.toInt) : Int32.ofNat nbytes.toInt.toNat = nbytes := by
  have below := nbytes.toInt_lt
  apply Int32.toInt_inj.mp
  rw [Int32.toInt_ofNat_of_lt (by omega)]
  omega

theorem copyName_eq (positive : 0 < nbytes.toInt) (size : n = min nbytes.toInt.toNat 32) (before : copied < n) :
    copyName nbytes l copied buf =
      (Int32.ofNat n, buf.storeList copied ((l ++ List.replicate 32 0).take (n - copied))) := by
  induction l generalizing copied buf with
  | nil =>
    rw [copyName, padName_eq size (Nat.le_of_lt before) (by omega), List.nil_append, List.take_replicate,
      Nat.min_eq_left (by omega)]
  | cons c name ih =>
    have first : n - copied = n - (copied + 1) + 1 := by omega
    rw [copyName, first, List.cons_append, List.take_succ_cons]
    split
    next last =>
      have whole : n = nbytes.toInt.toNat := by omega
      rw [show n - (copied + 1) = 0 by omega, whole, ofNat_toInt positive]
      rfl
    next =>
      split
      next full =>
        obtain rfl : n = 32 := by omega
        rw [full]
        rfl
      next =>
        rw [ih (by omega)]
        rfl

/-- A read of as many bytes as there are, and not more than 32. -/
theorem readDirectory_eq (name : CString) (positive : 0 < nbytes.toInt) :
    readDirectory nbytes (some name) buf = (Int32.ofNat (min nbytes.toInt.toNat 32),
      buf.storeList 0 ((record name).take (min nbytes.toInt.toNat 32))) := by
  rw [readDirectory, copyName_eq positive rfl (by omega), record, List.take_take, Nat.sub_zero]
  congr 3
  omega

/-! ## `ls` and `cat` -/

/-- What the programs have to themselves: `buf`, and what was written. -/
structure Program where
  buf : LocalArray
  writes : List Write

section CopyLoop

variable {ε : Type} (rounds : Nat) (read : ε → LocalArray → Int32 × LocalArray) (failed : String) (behind : List UInt8)
  (write : List Write → Int32)

/-- `while (0 != (cnt = ece391_read(fd, buf, ..)))` of both programs: what is read is written, with the bytes
`behind` stored behind it. `read` is one of the reads, `write` what a write returns after those before,
and a read behind the last one returns 0. -/
def copyLoop : List ε → Program → Option (Int32 × Program)
  | [], p => some (0, p)
  | e :: es, p =>
    let (cnt, buf) := read e p.buf
    if cnt = 0 then some (0, { p with buf := buf })
    else if cnt = -1 then do
      let writes ← fdputs rounds 1 (message failed) p.writes
      some (3, ⟨buf, writes⟩)
    else
      let buf := buf.storeList cnt.toNatClampNeg behind
      let writes := p.writes ++ [⟨1, (List.range (cnt.toNatClampNeg + behind.length)).map buf.bytes⟩]
      if write writes = -1 then some (3, ⟨buf, writes⟩)
      else copyLoop es ⟨buf, writes⟩

end CopyLoop

/-- `main` of `ece391ls.c`, for the names that `readdir` returns; `opened` is the result for `.`. -/
def lsMain (rounds : Nat) (opened : Int32) (write : List Write → Int32) (names : List CString) (stack : Nat → UInt8) :
    Option (Int32 × Program) :=
  if opened = -1 then do
    let writes ← fdputs rounds 1 (message "directory open failed\n") []
    some (2, ⟨⟨stack, []⟩, writes⟩)
  else
    copyLoop rounds (fun name => readDirectory 32 (some name)) "directory entry read failed\n" [newline] write names
      ⟨⟨stack, []⟩, []⟩

/-- A read of `ece391_read(fd, buf, 1024)`: the bytes that it delivers, `none` for -1. -/
def readFile (bytes : Option (List UInt8)) (buf : LocalArray) : Int32 × LocalArray :=
  match bytes with
  | none => (-1, buf)
  | some bytes => (Int32.ofNat bytes.length, buf.storeList 0 bytes)

/-- `main` of `ece391cat.c`; `opened` is the result for a name. -/
def catMain (rounds : Nat) (argv : List CString) (opened : List UInt8 → Int32) (write : List Write → Int32)
    (reads : List (Option (List UInt8))) (stack : Nat → UInt8) : Option (Int32 × Program) := do
  let (value, buf) ← getargs rounds argv 1024 ⟨stack, []⟩
  if value ≠ 0 then
    let writes ← fdputs rounds 1 (message "could not read arguments\n") []
    some (3, ⟨buf, writes⟩)
  else
    let name ← readText buf.bytes rounds 0
    if opened name = -1 then
      let writes ← fdputs rounds 1 (message "file not found\n") []
      some (2, ⟨buf, writes⟩)
    else copyLoop rounds readFile "file read failed\n" [] write reads ⟨buf, []⟩

/-! ## `main` of `grep` -/

/-- A file of the directory: what the system calls return for it, what is in the way of `data` on the stack, and
its bytes. -/
structure Entry where
  name : CString
  files : Files
  data : Nat → UInt8
  content : List UInt8

theorem ne_of_contains {bytes : List UInt8} {c : UInt8} (nonzero : bytes.contains 0 = false) (member : c ∈ bytes) : c ≠ 0 := by
  rintro rfl
  rw [List.contains_eq_mem, decide_eq_false_iff_not] at nonzero
  exact nonzero member

/-- The string that a pointer leads to. -/
def stringAt (rounds : Nat) (s : Nat → UInt8) : Option CString := do
  let bytes ← readText s rounds 0
  if nonzero : bytes.contains 0 = false then
    if short : bytes.length < 2 ^ 32 then some ⟨bytes, fun _ => ne_of_contains nonzero, short⟩ else none
  else none

/-- The loop over the directory. -/
def grepLoop (rounds : Nat) (search : CString) : List Entry → Program → Option (Int32 × Program)
  | [], p => some (0, p)
  | e :: entries, p =>
    let (cnt, buf) := readDirectory 32 (some e.name) p.buf
    if cnt = 0 then some (0, { p with buf := buf })
    else if cnt = -1 then do
      let writes ← fdputs rounds 1 (message "directory entry read failed\n") p.writes
      some (3, ⟨buf, writes⟩)
    else if buf.bytes 0 = 0x2E then grepLoop rounds search entries ⟨buf, p.writes⟩
    else do
      let buf := buf.store cnt.toNatClampNeg 0
      let fname ← stringAt rounds buf.bytes
      let (value, g) ← doOneFile e.files rounds search fname e.data e.content
      if value ≠ 0 then some (3, ⟨buf, p.writes ++ g.writes⟩)
      else grepLoop rounds search entries ⟨buf, p.writes ++ g.writes⟩

/-- `main` of `ece391grep.c`; `opened` is the result for `.`. -/
def grepMain (rounds : Nat) (argv : List CString) (opened : Int32) (entries : List Entry) (search buf : Nat → UInt8) :
    Option (Int32 × Program) := do
  let (value, search) ← getargs rounds argv 1024 ⟨search, []⟩
  if value ≠ 0 then
    let writes ← fdputs rounds 1 (message "could not read argument\n") []
    some (3, ⟨⟨buf, []⟩, writes⟩)
  else if opened = -1 then
    let writes ← fdputs rounds 1 (message "directory open failed\n") []
    some (2, ⟨⟨buf, []⟩, writes⟩)
  else
    let search ← stringAt rounds search.bytes
    grepLoop rounds search entries ⟨⟨buf, []⟩, []⟩

section CopyLoop

variable {ε : Type} {read : ε → LocalArray → Int32 × LocalArray} {failed : String} {behind : List UInt8}
  {write : List Write → Int32} {bytes : List UInt8} {e : ε} {es front : List ε} {p : Program}

/-- The read stores these bytes at the start of the buffer. -/
def Delivers (read : ε → LocalArray → Int32 × LocalArray) (e : ε) (bytes : List UInt8) : Prop :=
  bytes ≠ [] ∧ bytes.length ≤ bufsize ∧ ∀ buf, read e buf = (Int32.ofNat bytes.length, buf.storeList 0 bytes)

theorem copyLoop_cons (rounds : Nat) (failed : String) (behind : List UInt8) (write : List Write → Int32)
    (es : List ε) (p : Program) (delivers : Delivers read e bytes) : ∃ buf,
    copyLoop rounds read failed behind write (e :: es) p =
      if write (p.writes ++ [⟨1, bytes ++ behind⟩]) = -1 then some (3, ⟨buf, p.writes ++ [⟨1, bytes ++ behind⟩]⟩)
      else copyLoop rounds read failed behind write es ⟨buf, p.writes ++ [⟨1, bytes ++ behind⟩]⟩ := by
  obtain ⟨some_byte, small, reads⟩ := delivers
  obtain ⟨value, success, zero⟩ := count_result small
  have more : Int32.ofNat bytes.length ≠ 0 := mt zero.mp (List.length_pos_of_ne_nil some_byte).ne'
  have written : (List.range (bytes.length + behind.length)).map
      ((p.buf.storeList 0 bytes).storeList bytes.length behind).bytes = bytes ++ behind := by
    have both : Holds ((p.buf.storeList 0 bytes).storeList bytes.length behind).bytes 0 (bytes ++ behind) := by
      have first : Holds (p.buf.storeList 0 bytes).bytes 0 bytes := LocalArray.holds_storeList
      refine holds_append.mpr ⟨first.keep fun i _ below => ?_, ?_⟩
      · exact LocalArray.storeList_outside (.inl (by omega))
      · rw [Nat.zero_add]
        exact LocalArray.holds_storeList
    refine List.ext_getElem (by simp) fun k inside inside' => ?_
    rw [List.getElem_map, List.getElem_range, ← both k inside', Nat.zero_add]
  refine ⟨(p.buf.storeList 0 bytes).storeList bytes.length behind, ?_⟩
  rw [copyLoop, reads]
  simp only [if_neg more, if_neg success, value, written]

/-- None of these writes fails, when those `before` have been made. -/
def Succeed (write : List Write → Int32) : List Write → List Write → Prop
  | _, [] => True
  | before, w :: writes => write (before ++ [w]) ≠ -1 ∧ Succeed write (before ++ [w]) writes

instance Succeed.instDecidable (write : List Write → Int32) :
    (before writes : List Write) → Decidable (Succeed write before writes)
  | _, [] => inferInstanceAs (Decidable True)
  | before, w :: writes =>
    have := Succeed.instDecidable write (before ++ [w]) writes
    inferInstanceAs (Decidable (_ ∧ _))

/-- The loop writes what it reads up to the first write that fails. -/
theorem copyLoop_front (rounds : Nat) (failed : String) (behind : List UInt8) (write : List Write → Int32) (es : List ε)
    (p : Program) (made : ε → Write) (bytes : ε → List UInt8) (same : ∀ e, made e = ⟨1, bytes e ++ behind⟩)
    (delivers : ∀ e ∈ front, Delivers read e (bytes e)) :
    (∃ done e buf, done ++ [e] <+: front ∧ Succeed write p.writes (done.map made) ∧
      write (p.writes ++ (done ++ [e]).map made) = -1 ∧
      copyLoop rounds read failed behind write (front ++ es) p =
        some (3, ⟨buf, p.writes ++ (done ++ [e]).map made⟩)) ∨
    (Succeed write p.writes (front.map made) ∧ ∃ buf, copyLoop rounds read failed behind write (front ++ es) p =
      copyLoop rounds read failed behind write es ⟨buf, p.writes ++ front.map made⟩) := by
  induction front generalizing p with
  | nil => exact .inr ⟨trivial, p.buf, by rw [List.nil_append, List.map_nil, List.append_nil]⟩
  | cons e front ih =>
    rw [List.forall_mem_cons] at delivers
    obtain ⟨buf, round⟩ := copyLoop_cons rounds failed behind write (front ++ es) p delivers.1
    rw [← same e] at round
    rw [List.cons_append, round]
    by_cases stops : write (p.writes ++ [made e]) = -1
    · rw [if_pos stops]
      exact .inl ⟨[], e, buf, List.prefix_append [e] front, trivial, stops, rfl⟩
    · rw [if_neg stops]
      rcases ih ⟨buf, p.writes ++ [made e]⟩ delivers.2 with
        ⟨done, last, buf', part, before, fails, result⟩ | ⟨all, buf', result⟩
      · rw [List.append_assoc] at result fails
        exact .inl ⟨e :: done, last, buf', List.prefix_cons_inj e |>.mpr part, ⟨stops, before⟩, fails, result⟩
      · rw [List.append_assoc] at result
        exact .inr ⟨⟨stops, all⟩, buf', result⟩

end CopyLoop

/-! ## The directory -/

theorem length_record (name : CString) : (record name).length = 32 := by
  rw [record, List.length_take, List.length_append, List.length_replicate]
  omega

theorem record_delivered (name : CString) : Delivers (fun name => readDirectory 32 (some name)) name (record name) := by
  have length := length_record name
  refine ⟨List.ne_nil_of_length_pos (by omega), by rw [length]; decide, fun buf => ?_⟩
  show readDirectory 32 (some name) buf = _
  rw [readDirectory_eq name (by decide), show min (32 : Int32).toInt.toNat 32 = 32 by decide, length,
    List.take_of_length_le (by omega)]

/-- What `ls` writes for a name. -/
def listed (name : CString) : Write := ⟨1, record name ++ [newline]⟩

/-- `ls` writes a line of 33 bytes for every name of the directory, in the order of the directory: the first
32 characters of the name, filled up with NULs, and a newline. It returns 0 when none of the writes fails, and
otherwise stops with 3 behind the first one that does. -/
theorem ls_lists_directory (opened : Int32) (success : opened ≠ -1) (write : List Write → Int32)
    (names : List CString) (stack : Nat → UInt8) (rounds : Nat) :
    ∃ value buf done, lsMain rounds opened write names stack = some (value, ⟨buf, done.map listed⟩) ∧
      ((value = 0 ∧ done = names ∧ Succeed write [] (names.map listed)) ∨
        (value = 3 ∧ ∃ before name, done = before ++ [name] ∧ done <+: names ∧
          Succeed write [] (before.map listed) ∧ write (done.map listed) = -1)) := by
  have delivers : ∀ name ∈ names, Delivers (fun name => readDirectory 32 (some name)) name (record name) :=
    fun name _ => record_delivered name
  rw [lsMain, if_neg success]
  have loop := copyLoop_front rounds "directory entry read failed\n" [newline] write [] ⟨⟨stack, []⟩, []⟩ listed record
    (fun _ => rfl) delivers
  rw [List.append_nil] at loop
  rcases loop with ⟨before, name, buf, part, succeed, fails, result⟩ | ⟨succeed, buf, result⟩
  · exact ⟨3, buf, before ++ [name], result, .inr ⟨rfl, before, name, rfl, part, succeed, fails⟩⟩
  · exact ⟨0, buf, names, result, .inl ⟨rfl, rfl, succeed⟩⟩

/-- The second of three writes fails. -/
theorem ls_lists_directory_sample : ∃ buf,
    lsMain 9 2 (fun writes => if writes.length = 2 then -1 else 33) [argX, argAb, argX] (fun _ => 7) =
      some (3, ⟨buf, [argX, argAb].map listed⟩) := by
  obtain ⟨value, buf, done, result, ⟨_, _, succeed⟩ | ⟨rfl, before, name, rfl, part, _, fails⟩⟩ :=
    ls_lists_directory 2 (by decide) (fun writes => if writes.length = 2 then -1 else 33) [argX, argAb, argX]
      (fun _ => 7) 9
  · exact absurd succeed.2.1 (by decide)
  · have two : (before ++ [name]).length = 2 := by
      by_contra other
      simp only [List.length_map, if_neg other] at fails
      exact absurd fails (by decide)
    rw [List.prefix_iff_eq_take, two] at part
    rw [part] at result
    exact ⟨buf, result⟩

/-! ## A file -/

theorem file_delivered {piece : List UInt8} (some_byte : piece ≠ []) (small : piece.length ≤ 1024) :
    Delivers readFile (some piece) piece :=
  ⟨some_byte, small, fun _ => rfl⟩

/-- What `cat` writes for a piece of the file. -/
def piecewise (piece : List UInt8) : Write := ⟨1, piece⟩

/-- `cat` writes the file piece by piece as it is read, whatever the reads cut off. When none of these writes fails it
returns 0 at the end of the file, and 3 behind a message when a read fails; otherwise it stops with 3 behind the first
write that fails. -/
theorem cat_writes_file (argv : List CString) (short : (joined (argv.drop 1)).length ≤ 1023) (enough : 1025 < rounds)
    (opened : List UInt8 → Int32) (found : opened (joined (argv.drop 1)) ≠ -1) (write : List Write → Int32)
    (pieces : List (List UInt8)) (small : ∀ piece ∈ pieces, piece ≠ [] ∧ piece.length ≤ 1024)
    (rest : List (Option (List UInt8))) (last : ∀ piece, rest.head? = some (some piece) → piece = [])
    (stack : Nat → UInt8) :
    ∃ value p, catMain rounds argv opened write (pieces.map some ++ rest) stack = some (value, p) ∧
      ((value = 3 ∧ ∃ before piece, before ++ [piece] <+: pieces ∧ p.writes = (before ++ [piece]).map piecewise ∧
          Succeed write [] (before.map piecewise) ∧ write p.writes = -1) ∨
        (value = 3 ∧ rest.head? = some none ∧ Succeed write [] (pieces.map piecewise) ∧
          p.writes = pieces.map piecewise ++ [⟨1, quoted "file read failed\n"⟩]) ∨
        (value = 0 ∧ rest.head? ≠ some none ∧ Succeed write [] (pieces.map piecewise) ∧
          p.writes = pieces.map piecewise)) := by
  obtain ⟨after, arguments, text, _⟩ := getargs_joined argv short (Nat.lt_of_le_of_lt (by decide) enough) stack
  have whole : Text (fun k => after.bytes (0 + k)) (joined (argv.drop 1)) := by
    simp only [Nat.zero_add]
    exact text
  have name : readText after.bytes rounds 0 = some (joined (argv.drop 1)) := readText_eq whole (by omega)
  have delivers : ∀ r ∈ pieces.map some, Delivers readFile r (r.getD []) := by
    intro r member
    obtain ⟨piece, inside, rfl⟩ := List.mem_map.mp member
    exact file_delivered (small piece inside).1 (small piece inside).2
  rw [catMain, arguments]
  simp only [Option.bind_eq_bind, Option.bind_some, ne_eq, not_true_eq_false, if_false, name, if_neg found]
  have pieceWrites (done : List (List UInt8)) :
      (done.map some).map (fun r => piecewise (r.getD [])) = done.map piecewise := by
    simp only [List.map_map, Function.comp_def, Option.getD_some]
  rcases copyLoop_front rounds "file read failed\n" [] write rest ⟨after, []⟩ (fun r => piecewise (r.getD []))
      (fun r => r.getD []) (fun _ => by rw [piecewise, List.append_nil]) delivers with
    ⟨done, piece, buf, part, succeed, fails, result⟩ | ⟨succeed, buf, result⟩
  · obtain ⟨front, part', split⟩ := List.prefix_map_iff.mp part
    obtain ⟨before, lastOne, rfl, rfl, single⟩ := List.append_eq_map_iff.mp split
    obtain ⟨piece, rfl, rfl⟩ := List.map_eq_singleton_iff.mp single
    rw [← List.map_singleton, ← List.map_append, pieceWrites, List.nil_append] at result fails
    rw [pieceWrites] at succeed
    exact ⟨3, _, result, .inl ⟨rfl, before, piece, part', rfl, succeed, fails⟩⟩
  · rw [pieceWrites, List.nil_append] at result
    rw [pieceWrites] at succeed
    rw [result]
    cases rest with
    | nil => exact ⟨0, _, rfl, .inr (.inr ⟨rfl, by simp, succeed, rfl⟩)⟩
    | cons r rest =>
      cases r with
      | none =>
        have failure : fdputs rounds 1 (message "file read failed\n") (pieces.map piecewise) = some _ :=
          fdputs_message _ (by simp [quoted]) (Nat.lt_of_le_of_lt (by decide) enough) (by decide)
        refine ⟨3, ⟨buf, pieces.map piecewise ++ [⟨1, quoted "file read failed\n"⟩]⟩, ?_,
          .inr (.inl ⟨rfl, rfl, succeed, rfl⟩)⟩
        rw [copyLoop]
        simp only [readFile, failure]
        rfl
      | some piece =>
        obtain rfl := last piece rfl
        exact ⟨0, _, rfl, .inr (.inr ⟨rfl, by simp, succeed, rfl⟩)⟩

/-- `cat x`, for a file that is read in two pieces, the second of which cannot be written. -/
theorem cat_writes_file_sample : ∃ p,
    catMain 1026 [argP, argX] (fun _ => 2) (fun writes => if writes.length = 2 then -1 else 1)
      ([[0x61], [0x62, 0x0A]].map some ++ [some []]) (fun _ => 7) = some (3, p) ∧
    p.writes = [[0x61], [0x62, 0x0A]].map piecewise := by
  obtain ⟨value, p, result, ⟨rfl, before, piece, part, writes, _, fails⟩ | ⟨_, _, succeed, _⟩ | ⟨_, _, succeed, _⟩⟩ :=
    cat_writes_file [argP, argX] (by decide) (show 1025 < 1026 by decide) (fun _ => 2) (by decide)
      (fun writes => if writes.length = 2 then -1 else 1) [[0x61], [0x62, 0x0A]] (by decide) [some []] (by simp)
      (fun _ => 7)
  · have two : (before ++ [piece]).length = 2 := by
      by_contra other
      simp only [writes, List.length_map, if_neg other] at fails
      exact absurd fails (by decide)
    rw [List.prefix_iff_eq_take, two] at part
    exact ⟨p, result, by rw [writes, part]; rfl⟩
  · exact absurd succeed.2.1 (by decide)
  · exact absurd succeed.2.1 (by decide)

/-! ## The files of the directory -/

/-- The name that `grep` opens and prints. -/
def fileName (name : CString) : CString :=
  ⟨name.bytes.take 32, fun c member => name.nonzero c (List.mem_of_mem_take member),
    Nat.lt_of_le_of_lt (List.length_take_le' _ _) name.short⟩

/-- The file is read without a failure, and its lines fit in the buffer of `do_one_file`, which is longer than the
file or has no newline behind it. -/
structure Entry.Readable (e : Entry) : Prop where
  reads : FullReads e.files
  nonzero : ∀ c ∈ e.content, c ≠ 0
  lines : ∀ line ∈ e.content.splitOn newline, line.length ≤ 1023
  fresh : e.content.length < bufsize ∨ e.data bufsize ≠ newline

/-- A name that starts with a dot. -/
def Entry.hidden (e : Entry) : Bool := e.name.bytes.head? = some 0x2E

variable {s : Nat → UInt8} {str : CString} {search : CString} {p : Program} {e : Entry} {entries : List Entry}

theorem stringAt_eq (text : Text s str.bytes) (enough : str.bytes.length < rounds) : stringAt rounds s = some str := by
  have whole : Text (fun k => s (0 + k)) str.bytes := by
    simp only [Nat.zero_add]
    exact text
  rw [stringAt, readText_eq whole enough]
  have nonzero : str.bytes.contains 0 = false := by
    rw [List.contains_eq_mem, decide_eq_false_iff_not]
    exact fun member => str.nonzero 0 member rfl
  exact (dif_pos nonzero).trans (dif_pos str.short)

theorem record_takeWhile (name : CString) : (record name).takeWhile (· ≠ 0) = (fileName name).bytes := by
  have nonzero : ∀ c ∈ name.bytes.take 32, (decide (c ≠ 0)) = true := fun c member =>
    decide_eq_true (name.nonzero c (List.mem_of_mem_take member))
  rw [record, List.take_append, List.takeWhile_append_of_pos nonzero, List.take_replicate, List.takeWhile_replicate]
  simp only [ne_eq, not_true_eq_false, decide_false, Bool.false_eq_true, if_false, List.append_nil]
  rfl

/-- The buffer with a name in it. -/
theorem name_read (name : CString) (buf : LocalArray) :
    Text ((buf.storeList 0 (record name)).store 32 0).bytes (fileName name).bytes := by
  rw [← record_takeWhile]
  have holds : Holds (buf.storeList 0 (record name)).bytes 0 (record name) := LocalArray.holds_storeList
  have length := length_record name
  have kept : Holds ((buf.storeList 0 (record name)).store 32 0).bytes 0 (record name) :=
    holds.keep fun i _ below => Function.update_of_ne (by omega) _ _
  have nul : ((buf.storeList 0 (record name)).store 32 0).bytes (record name).length = 0 := by
    rw [length, LocalArray.store_bytes, Function.update_self]
  exact text_takeWhile kept nul

theorem hidden_iff (e : Entry) (buf : LocalArray) :
    (buf.storeList 0 (record e.name)).bytes 0 = 0x2E ↔ e.hidden = true := by
  have length := length_record e.name
  have holds : Holds (buf.storeList 0 (record e.name)).bytes 0 (record e.name) := LocalArray.holds_storeList
  have some_byte : 0 < (record e.name).length := by omega
  have first := holds 0 some_byte
  rw [Nat.add_zero] at first
  rw [first, Entry.hidden, decide_eq_true_eq]
  cases name : e.name.bytes with
  | nil =>
    have blank : (record e.name)[0] = 0 := by simp [record, name]
    have other : (0 : UInt8) ≠ 0x2E := by decide
    rw [blank]
    exact iff_of_false other (by simp)
  | cons c cs =>
    have head : (record e.name)[0] = c := by simp [record, name]
    rw [head, List.head?_cons, Option.some_inj]

theorem grepLoop_cons (entries : List Entry) (p : Program) (readable : e.hidden = false → e.Readable) (nonempty : search.bytes ≠ [])
    (ascii : search.bytes.headD 0 < 0x80) (long : search.bytes.length < rounds) (enough : bufsize < rounds)
    (size : e.content.length < rounds) : ∃ buf writes,
      grepLoop rounds search (e :: entries) p = grepLoop rounds search entries ⟨buf, writes⟩ ∧
      Prints p.writes writes (if e.hidden then [] else printed (contains search) (fileName e.name) e.content) := by
  have length := length_record e.name
  have read : readDirectory 32 (some e.name) p.buf = _ := (record_delivered e.name).2.2 p.buf
  obtain ⟨value, success, zero⟩ := count_result (show 32 ≤ bufsize by decide)
  have more : Int32.ofNat 32 ≠ 0 := mt zero.mp (by decide)
  rw [grepLoop, read, length]
  simp only [if_neg more, if_neg success, hidden_iff, value]
  by_cases hides : e.hidden = true
  · rw [if_pos hides, if_pos hides]
    exact ⟨_, _, rfl, prints_nothing⟩
  · have file := readable (Bool.not_eq_true _ ▸ hides)
    have short : (fileName e.name).bytes.length < rounds :=
      Nat.lt_of_le_of_lt ((List.length_take_le 32 _).trans (by decide)) enough
    obtain ⟨g, result, prints⟩ : ∃ g, doOneFile e.files rounds search (fileName e.name) e.data e.content =
        some (0, g) ∧ Prints [] g.writes (printed (finds search) (fileName e.name) (taken (e.data bufsize) e.content)) :=
      doOneFile_prints file.reads nonempty ⟨long, short, enough⟩ file.nonzero file.lines size
    have whole : taken (e.data bufsize) e.content = e.content := file.fresh.elim taken_short taken_fresh
    have same : finds search = contains search := funext fun line => by
      rw [finds, decide_eq_true ascii, Bool.true_and]
    rw [whole, same] at prints
    rw [if_neg hides, if_neg hides, stringAt_eq (name_read e.name p.buf) short]
    simp only [Option.bind_eq_bind, Option.bind_some, result, ne_eq, not_true_eq_false, if_false]
    obtain ⟨made, split, fds, bytes⟩ := prints
    rw [List.nil_append] at split
    exact ⟨_, _, rfl, made, split ▸ rfl, fds, bytes⟩

theorem grepLoop_prints (readable : ∀ e ∈ entries, e.hidden = false → e.Readable) (nonempty : search.bytes ≠ [])
    (ascii : search.bytes.headD 0 < 0x80) (long : search.bytes.length < rounds) (enough : bufsize < rounds)
    (size : ∀ e ∈ entries, e.content.length < rounds) : ∃ p', grepLoop rounds search entries p = some (0, p') ∧
      Prints p.writes p'.writes ((entries.filter fun e => !e.hidden).flatMap fun e =>
        printed (contains search) (fileName e.name) e.content) := by
  induction entries generalizing p with
  | nil => exact ⟨p, rfl, prints_nothing⟩
  | cons e entries ih =>
    rw [List.forall_mem_cons] at readable size
    obtain ⟨buf, writes, round, first⟩ := grepLoop_cons entries p readable.1 nonempty ascii long enough size.1
    obtain ⟨p', result, rest⟩ := ih (p := ⟨buf, writes⟩) readable.2 size.2
    refine ⟨p', round.trans result, ?_⟩
    have both := first.trans rest
    cases hides : e.hidden with
    | true => simpa [hides] using both
    | false => simpa [hides] using both

/-- `grep` prints the lines with the pattern of all files of the directory, in the order of the directory, and
returns 0. Names that start with a dot are left out, and a name is cut off behind 32 characters. -/
theorem grep_prints_directory (argv : List CString) (search : CString) (pattern : search.bytes = joined (argv.drop 1))
    (nonempty : search.bytes ≠ []) (short : search.bytes.length ≤ 1023) (ascii : search.bytes.headD 0 < 0x80)
    (opened : Int32) (success : opened ≠ -1) (entries : List Entry)
    (readable : ∀ e ∈ entries, e.hidden = false → e.Readable) (enough : bufsize < rounds)
    (size : ∀ e ∈ entries, e.content.length < rounds) (stack stack' : Nat → UInt8) :
    ∃ p, grepMain rounds argv opened entries stack stack' = some (0, p) ∧ (∀ w ∈ p.writes, w.fd = 1) ∧
      p.writes.flatMap Write.bytes = (entries.filter fun e => !e.hidden).flatMap fun e =>
        printed (contains search) (fileName e.name) e.content := by
  have buffer : 1024 < rounds := enough
  obtain ⟨after, arguments, text, _⟩ := getargs_joined argv (pattern ▸ short) (Nat.lt_of_succ_lt buffer) stack
  have long : search.bytes.length < rounds := by omega
  obtain ⟨p, result, made, split, fds, bytes⟩ := grepLoop_prints (p := ⟨⟨stack', []⟩, []⟩) readable nonempty ascii long
    enough size
  rw [List.nil_append] at split
  refine ⟨p, ?_, split ▸ fds, split ▸ bytes⟩
  rw [grepMain, arguments]
  simp only [Option.bind_eq_bind, Option.bind_some, ne_eq, not_true_eq_false, if_false, if_neg success]
  rw [stringAt_eq (pattern.symm ▸ text) long]
  exact result

/-- `grep x`, in a directory with a file `ab`. -/
theorem grep_prints_directory_sample : ∃ p,
    grepMain 1026 [argP, argX] 2 [⟨argAb, sampleFiles, fun _ => 0, [0x78, 0x0A]⟩] (fun _ => 7) (fun _ => 7) =
      some (0, p) ∧ (∀ w ∈ p.writes, w.fd = 1) ∧
      p.writes.flatMap Write.bytes =
        ([⟨argAb, sampleFiles, fun _ => 0, [0x78, 0x0A]⟩].filter fun e : Entry => !e.hidden).flatMap fun e =>
          printed (contains argX) (fileName e.name) e.content :=
  grep_prints_directory [argP, argX] argX (by decide) (by decide) (by decide) (by decide) 2 (by decide) _
    (fun e member _ => by
      rw [List.mem_singleton.mp member]
      exact ⟨sampleFiles_full, by simp, by decide, .inl (by decide)⟩)
    (by decide) (by simp) (fun _ => 7) (fun _ => 7)

end Syscalls

end Mp3Kernel
