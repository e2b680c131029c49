import Mp3Kernel.Boot.Basic

/-!
# The report on the loader's data

`terminal_open` blanks three megabytes before the first field is read, and every
line of the report is stored to the same area. As long as the loader has put its
data elsewhere, what `entry` prints is what the loader wrote, and the walk over the
memory map meets every entry once: the map is a list of records that each say
where the next one begins.
-/

namespace Mp3Kernel

open Library

namespace Boot

open Format Console

variable {m : UInt32 → UInt8} {s : Console} {mbi addr : UInt32} {stack : Stack} {text text' : List UInt8}
  {part part' : Nat → Console → Option Console}

/-! ## Data that the screen does not reach -/

/-- Memory is as the loader left it, outside the screen. -/
def Agrees (m : UInt32 → UInt8) (s : Console) : Prop := ∀ a, OffScreen a → s.mem.bytes a = m a

/-- `n` bytes outside the screen. -/
def Clear (addr : UInt32) (n : Nat) : Prop := ∀ k < n, OffScreen (addr + UInt32.ofNat k)

instance (addr : UInt32) (n : Nat) : Decidable (Clear addr n) := inferInstanceAs (Decidable (∀ k < n, _))

theorem Agrees.run (agrees : Agrees m s) (inStep : s.InStep) (allowed : Along putc PutcAllowed text s) :
    Agrees m (run putc text s) := fun a off =>
  ((run_putc_outside inStep allowed).2 a off).trans (agrees a off)

/-- A field of a structure that lies outside the screen. -/
theorem Agrees.word (agrees : Agrees m s) {n : Nat} (clear : Clear addr n) (offset : Nat)
    (inside : offset + 4 ≤ n) : Memory.wordAt s.mem.bytes (addr + UInt32.ofNat offset) =
      Memory.wordAt m (addr + UInt32.ofNat offset) := by
  apply Memory.wordAt_congr
  intro k small
  rw [UInt32.add_assoc, ← UInt32.ofNat_add]
  exact agrees _ (clear (offset + k) (by omega))

theorem Agrees.firstWord (agrees : Agrees m s) {n : Nat} (clear : Clear addr n) (inside : 4 ≤ n) :
    Memory.wordAt s.mem.bytes addr = Memory.wordAt m addr := by
  have word := agrees.word clear 0 inside
  rwa [show UInt32.ofNat 0 = 0 from rfl, UInt32.add_zero] at word

theorem Agrees.info (agrees : Agrees m s) (clear : Clear mbi 52) : info mbi s = MultibootInfo.read m mbi := by
  have first := agrees.firstWord clear (by decide)
  rw [Boot.info, MultibootInfo.read, MultibootInfo.read, MultibootInfo.mk.injEq]
  exact ⟨first, agrees.word clear 4 (by decide), agrees.word clear 8 (by decide), agrees.word clear 12 (by decide),
    agrees.word clear 16 (by decide), agrees.word clear 20 (by decide), agrees.word clear 24 (by decide),
    agrees.word clear 28 (by decide), agrees.word clear 32 (by decide), agrees.word clear 36 (by decide),
    agrees.word clear 40 (by decide), agrees.word clear 44 (by decide), agrees.word clear 48 (by decide)⟩

theorem Agrees.module (agrees : Agrees m s) (clear : Clear addr 8) : Module.read s.mem.bytes addr = Module.read m addr := by
  have first := agrees.firstWord clear (by decide)
  rw [Module.read, Module.read, Module.mk.injEq]
  exact ⟨first, agrees.word clear 4 (by decide)⟩

theorem Agrees.memoryMap (agrees : Agrees m s) (clear : Clear addr 24) :
    MemoryMap.read s.mem.bytes addr = MemoryMap.read m addr := by
  have first := agrees.firstWord clear (by decide)
  rw [MemoryMap.read, MemoryMap.read, MemoryMap.mk.injEq]
  exact ⟨first, agrees.word clear 4 (by decide), agrees.word clear 8 (by decide), agrees.word clear 12 (by decide),
    agrees.word clear 16 (by decide), agrees.word clear 20 (by decide)⟩

theorem Agrees.moduleByte (agrees : Agrees m s) (clear : Clear addr 8)
    (bytes : Clear (Module.read m addr).modStart 16) {i : Nat} (inside : i < 16) :
    moduleByte s.mem.bytes addr i = moduleByte m addr i := by
  rw [Boot.moduleByte, Boot.moduleByte, agrees.module clear, agrees _ (bytes i inside)]

/-! ## Parts of the report -/

/-- With the loader's data in memory, this part of `entry` prints the text and goes on. -/
def Reports (m : UInt32 → UInt8) (part : Nat → Console → Option Console) (text : List UInt8) : Prop :=
  ∀ s : Console, s.InStep → Agrees m s → Along putc PutcAllowed text s →
    ∃ bound, ∀ rounds ≥ bound, part rounds s = some (run putc text s)

theorem reports_nothing : Reports m (fun _ s => some s) [] := fun _ _ _ _ => ⟨0, fun _ _ => rfl⟩

theorem Reports.bind (first : Reports m part text) (second : Reports m part' text') :
    Reports m (fun rounds s => part rounds s >>= part' rounds) (text ++ text') := by
  intro s inStep agrees allowed
  obtain ⟨allowed, allowed'⟩ := (along_append _ _ _).mp allowed
  obtain ⟨bound, done⟩ := first s inStep agrees allowed
  obtain ⟨bound', done'⟩ := second _ (run_putc_outside inStep allowed).1 (agrees.run inStep allowed) allowed'
  refine ⟨max bound bound', fun rounds more => ?_⟩
  show part rounds s >>= part' rounds = _
  rw [done rounds (le_of_max_le_left more), run_append]
  exact done' rounds (le_of_max_le_right more)

/-- A part behind a flag. -/
theorem Reports.guarded {now : Console → Bool} {flag : Bool} (same : ∀ s, Agrees m s → now s = flag)
    (reports : flag = true → Reports m part text) :
    Reports m (fun rounds s => if now s then part rounds s else some s) (if flag then text else []) := by
  intro s inStep agrees allowed
  simp only [same s agrees]
  cases flag with
  | true => exact reports rfl s inStep agrees allowed
  | false => exact ⟨0, fun _ _ => rfl⟩

/-- What a literal prints, where `cmdline` is the only string. -/
def formatted (cmdline : List UInt8) (format : String) (args : List UInt32) : List UInt8 :=
  expand (fun _ => cmdline) (parse none (quoted format)) args

/-- One `printf`, with arguments from the loader's data. -/
theorem reports_formatted {cmdline : List UInt8} {format : String} {args : Console → List UInt32}
    {values : List UInt32} (same : ∀ s, Agrees m s → args s = values)
    (suited : suits values.length (quoted format) = true)
    (strings : ∀ v ∈ stringArguments (parse none (quoted format)) values,
      Text (fun k => m (v + UInt32.ofNat k)) cmdline ∧ Clear v (cmdline.length + 1)) :
    Reports m (fun rounds s => say stack rounds format (args s) s) (formatted cmdline format values) := by
  intro s _ agrees _
  have texts : ∀ v ∈ stringArguments (parse none (quoted format)) values,
      Text (fun k => s.mem.bytes (v + UInt32.ofNat k)) cmdline := by
    intro v member
    obtain ⟨there, clear⟩ := strings v member
    obtain ⟨chars, nonzero, nul⟩ := text_iff.mp there
    refine text_iff.mpr ⟨fun k inside => ?_, nonzero, ?_⟩
    · rw [agrees _ (clear k (by omega)), chars k inside]
    · rw [agrees _ (clear cmdline.length (by omega)), nul]
  obtain ⟨bound, prints⟩ := literal_prints stack.above s.mem.bytes stack.garbage (fun _ => cmdline) suited texts
  refine ⟨bound, fun rounds more => ?_⟩
  obtain ⟨value, p, result, out⟩ := prints rounds more
  simp only [say, Console.printf, same s agrees, result, formatted, ← out]
  rfl

/-- A format for `n` numbers. -/
def numeric (n : Nat) (fmt : List UInt8) : Bool := suits n fmt && !(parse none fmt).contains .string

theorem reports_line (cmdline : List UInt8) (stack : Stack) (format : String) (n : Nat)
    (args : Console → List UInt32) (values : List UInt32) (same : ∀ s, Agrees m s → args s = values)
    (count : values.length = n) (plain : numeric n (quoted format) = true) :
    Reports m (fun rounds s => say stack rounds format (args s) s) (formatted cmdline format values) := by
  rw [numeric, Bool.and_eq_true] at plain
  obtain ⟨suited, noStrings⟩ := plain
  have noStrings : .string ∉ parse none (quoted format) := by simpa using noStrings
  refine reports_formatted same (by rw [count]; exact suited) fun v member => ?_
  rw [stringArguments_eq_nil noStrings] at member
  exact absurd member List.not_mem_nil

theorem Reports.foldlM {parts : Nat → Nat → Console → Option Console} {texts : Nat → List UInt8} {indices : List Nat}
    (reports : ∀ i ∈ indices, Reports m (parts i) (texts i)) :
    Reports m (fun rounds s => indices.foldlM (fun s i => parts i rounds s) s) (indices.flatMap texts) := by
  induction indices with
  | nil => exact reports_nothing
  | cons i rest ih =>
    rw [List.forall_mem_cons] at reports
    simp only [List.foldlM_cons, List.flatMap_cons]
    exact reports.1.bind (ih reports.2)

/-- With enough rounds and the loader's data in memory, only what the part does counts. -/
theorem Reports.congr {enough : Nat}
    (same : ∀ rounds ≥ enough, ∀ s, Agrees m s → part rounds s = part' rounds s)
    (reports : Reports m part' text) : Reports m part text := by
  intro s inStep agrees allowed
  obtain ⟨bound, done⟩ := reports s inStep agrees allowed
  refine ⟨max enough bound, fun rounds more => ?_⟩
  rw [same rounds (le_of_max_le_left more) s agrees]
  exact done rounds (le_of_max_le_right more)

/-! ## The modules -/

section Modules

variable (m : UInt32 → UInt8) (cmdline : List UInt8) (mod : UInt32)

def moduleReport (modCount : UInt32) : List UInt8 :=
  formatted cmdline "Module %d loaded at address: 0x%#x\n" [modCount, (Module.read m mod).modStart] ++
  (formatted cmdline "Module %d ends at address: 0x%#x\n" [modCount, (Module.read m mod).modEnd] ++
  (formatted cmdline "First few bytes of module:\n" [] ++
  ((List.range 16).flatMap (fun i => formatted cmdline "0x%x " [moduleByte m mod i]) ++
  formatted cmdline "\n" [])))

/-- The same module for every number. -/
def modulesReport (first count : Nat) : List UInt8 :=
  (List.range' first count).flatMap fun n => moduleReport m cmdline mod (UInt32.ofNat n)

end Modules

theorem printModule_reports (cmdline : List UInt8) (stack : Stack) {mod : UInt32} (clear : Clear mod 8)
    (bytes : Clear (Module.read m mod).modStart 16) (modCount : UInt32) :
    Reports m (fun rounds s => printModule stack rounds mod modCount s) (moduleReport m cmdline mod modCount) := by
  have start := reports_line cmdline stack "Module %d loaded at address: 0x%#x\n" 2
    (fun s => [modCount, (Module.read s.mem.bytes mod).modStart]) [modCount, (Module.read m mod).modStart]
    (fun s agrees => by rw [agrees.module clear]) rfl (by decide +kernel)
  have stop := reports_line cmdline stack "Module %d ends at address: 0x%#x\n" 2
    (fun s => [modCount, (Module.read s.mem.bytes mod).modEnd]) [modCount, (Module.read m mod).modEnd]
    (fun s agrees => by rw [agrees.module clear]) rfl (by decide +kernel)
  have label := reports_line (m := m) cmdline stack "First few bytes of module:\n" 0 (fun _ => []) []
    (fun _ _ => rfl) rfl (by decide +kernel)
  have line : Reports m (fun rounds s => printBytes stack rounds mod s)
      ((List.range 16).flatMap fun i => formatted cmdline "0x%x " [moduleByte m mod i]) :=
    Reports.foldlM fun i inside => reports_line cmdline stack "0x%x " 1
      (fun s => [moduleByte s.mem.bytes mod i]) [moduleByte m mod i]
      (fun s agrees => by rw [agrees.moduleByte clear bytes (List.mem_range.mp inside)]) rfl (by decide +kernel)
  have blank := reports_line (m := m) cmdline stack "\n" 0 (fun _ => []) [] (fun _ _ => rfl) rfl (by decide +kernel)
  exact start.bind (stop.bind (label.bind (line.bind blank)))

theorem modulesLoop_reports (cmdline : List UInt8) (stack : Stack) {mod : UInt32} (here : Clear mbi 52) (clear : Clear mod 8)
    (count first : Nat) (loaded : count ≠ 0 → Clear (Module.read m mod).modStart 16)
    (total : first + count = (MultibootInfo.read m mbi).modsCount.toNat) (left : Nat → Nat) (enough : Nat)
    (room : ∀ rounds ≥ enough, count < left rounds) :
    Reports m (fun rounds s => modulesLoop mbi stack rounds mod (left rounds) (UInt32.ofNat first) s)
      (modulesReport m cmdline mod first count) := by
  have small := (MultibootInfo.read m mbi).modsCount.toNat_lt
  induction count generalizing first left with
  | zero =>
    refine reports_nothing.congr fun rounds (more : rounds ≥ enough) s agrees => ?_
    obtain ⟨l, same⟩ := Nat.exists_eq_succ_of_ne_zero (Nat.ne_zero_of_lt (room rounds more))
    have last : ¬UInt32.ofNat first < (MultibootInfo.read m mbi).modsCount := by
      rw [UInt32.lt_iff_toNat_lt, UInt32.toNat_ofNat_of_lt' (by simp only [UInt32.size]; omega)]
      omega
    rw [same, modulesLoop, agrees.info here, if_neg last]
  | succ count ih =>
    have bytes := loaded (Nat.succ_ne_zero count)
    have another : UInt32.ofNat first < (MultibootInfo.read m mbi).modsCount := by
      rw [UInt32.lt_iff_toNat_lt, UInt32.toNat_ofNat_of_lt' (by simp only [UInt32.size]; omega)]
      omega
    -- `mod` never moves on: each round prints the same module.
    have fewer : ∀ rounds ≥ enough, count < left rounds - 1 := fun rounds more => by
      have := room rounds more
      omega
    have rest := ih (first + 1) (fun _ => bytes) (by omega) (fun rounds => left rounds - 1) fewer
    rw [UInt32.ofNat_add] at rest
    have round := (printModule_reports cmdline stack clear bytes (UInt32.ofNat first)).bind rest
    rw [modulesReport, List.range'_succ, List.flatMap_cons]
    refine round.congr fun rounds (more : rounds ≥ enough) s agrees => ?_
    obtain ⟨l, same⟩ := Nat.exists_eq_succ_of_ne_zero (Nat.ne_zero_of_lt (room rounds more))
    simp only [same, Nat.succ_eq_add_one, Nat.add_sub_cancel]
    rw [modulesLoop, agrees.info here, if_pos another]
    rfl

/-! ## The memory map -/

/-- How far the entries reach, each with its `size` field in front. -/
def mapLength : List MemoryMap → Nat
  | [] => 0
  | entry :: entries => entry.size.toNat + 4 + mapLength entries

/-- The loader has written the entries one behind the other, outside the screen. -/
def Laid (m : UInt32 → UInt8) : Nat → List MemoryMap → Prop
  | _, [] => True
  | start, entry :: entries => MemoryMap.read m (UInt32.ofNat start) = entry ∧ Clear (UInt32.ofNat start) 24 ∧
      Laid m (start + entry.size.toNat + 4) entries

def entryReport (cmdline : List UInt8) (entry : MemoryMap) : List UInt8 :=
  formatted cmdline " size = 0x%x,     base_addr = 0x%#x%#x\n     type = 0x%x,  length    = 0x%#x%#x\n"
    entry.shown

/-- The walk meets the entries that were laid, and ends behind the last of them. -/
theorem mmapLoop_reports (cmdline : List UInt8) (stack : Stack) (here : Clear mbi 52) {entries : List MemoryMap}
    {start : Nat} (laid : Laid m start entries) (total : start + mapLength entries =
      ((MultibootInfo.read m mbi).mmapAddr + (MultibootInfo.read m mbi).mmapLength).toNat)
    (left : Nat → Nat) (enough : Nat) (room : ∀ rounds ≥ enough, entries.length < left rounds) :
    Reports m (fun rounds s => mmapLoop mbi stack rounds (left rounds) (UInt32.ofNat start) s)
      (entries.flatMap (entryReport cmdline)) := by
  have small := ((MultibootInfo.read m mbi).mmapAddr + (MultibootInfo.read m mbi).mmapLength).toNat_lt
  induction entries generalizing start left with
  | nil =>
    rw [mapLength] at total
    refine reports_nothing.congr fun rounds (more : rounds ≥ enough) s agrees => ?_
    obtain ⟨l, same⟩ := Nat.exists_eq_succ_of_ne_zero (Nat.ne_zero_of_lt (room rounds more))
    have last : ¬UInt32.ofNat start < (MultibootInfo.read m mbi).mmapAddr + (MultibootInfo.read m mbi).mmapLength := by
      rw [UInt32.lt_iff_toNat_lt, UInt32.toNat_ofNat_of_lt' (by simp only [UInt32.size]; omega)]
      omega
    rw [same, mmapLoop, agrees.info here, if_neg last]
  | cons entry entries ih =>
    obtain ⟨rfl, clear, behind⟩ := laid
    rw [mapLength] at total
    have another : UInt32.ofNat start <
        (MultibootInfo.read m mbi).mmapAddr + (MultibootInfo.read m mbi).mmapLength := by
      rw [UInt32.lt_iff_toNat_lt, UInt32.toNat_ofNat_of_lt' (by simp only [UInt32.size]; omega)]
      omega
    have fewer : ∀ rounds ≥ enough, entries.length < left rounds - 1 := fun rounds more => by
      have := room rounds more
      rw [List.length_cons] at this
      omega
    have rest := ih behind (by omega) (fun rounds => left rounds - 1) fewer
    have next : UInt32.ofNat (start + (MemoryMap.read m (UInt32.ofNat start)).size.toNat + 4) =
        UInt32.ofNat start + (MemoryMap.read m (UInt32.ofNat start)).size + 4 := by
      rw [UInt32.ofNat_add, UInt32.ofNat_add, UInt32.ofNat_toNat]
      rfl
    rw [next] at rest
    -- The increment reads the size behind the line, when it is still the loader's.
    have step : Reports m (fun rounds s => mmapLoop mbi stack rounds (left rounds - 1)
        (UInt32.ofNat start + (MemoryMap.read s.mem.bytes (UInt32.ofNat start)).size + 4) s)
        (entries.flatMap (entryReport cmdline)) :=
      rest.congr fun rounds (_ : rounds ≥ 0) s agrees => by rw [agrees.memoryMap clear]
    have line := reports_line cmdline stack
      " size = 0x%x,     base_addr = 0x%#x%#x\n     type = 0x%x,  length    = 0x%#x%#x\n" 6
      (fun s => (MemoryMap.read s.mem.bytes (UInt32.ofNat start)).shown)
      (MemoryMap.read m (UInt32.ofNat start)).shown
      (fun s agrees => by rw [agrees.memoryMap clear]) rfl (by decide +kernel)
    rw [List.flatMap_cons]
    refine (line.bind step).congr fun rounds (more : rounds ≥ enough) s agrees => ?_
    obtain ⟨l, same⟩ := Nat.exists_eq_succ_of_ne_zero (Nat.ne_zero_of_lt (room rounds more))
    simp only [same, Nat.succ_eq_add_one, Nat.add_sub_cancel]
    rw [mmapLoop, agrees.info here, if_pos another]

/-! ## The whole report -/

/-- The loader's data is outside the screen: the information, and what its flags say is there. -/
structure Loaded (m : UInt32 → UInt8) (mbi : UInt32) (cmdline : List UInt8) (entries : List MemoryMap) : Prop where
  info : Clear mbi 52
  cmdline : checkFlag (MultibootInfo.read m mbi).flags 2 = true →
    Text (fun k => m ((MultibootInfo.read m mbi).cmdline + UInt32.ofNat k)) cmdline ∧
      Clear (MultibootInfo.read m mbi).cmdline (cmdline.length + 1)
  modules : checkFlag (MultibootInfo.read m mbi).flags 3 = true →
    Clear (MultibootInfo.read m mbi).modsAddr 8 ∧
      ((MultibootInfo.read m mbi).modsCount.toNat ≠ 0 →
        Clear (Module.read m (MultibootInfo.read m mbi).modsAddr).modStart 16)
  map : checkFlag (MultibootInfo.read m mbi).flags 6 = true →
    Laid m (MultibootInfo.read m mbi).mmapAddr.toNat entries ∧
      mapLength entries = (MultibootInfo.read m mbi).mmapLength.toNat ∧
      (MultibootInfo.read m mbi).mmapAddr.toNat + mapLength entries < 2 ^ 32

section Report

variable (m : UInt32 → UInt8) (mbi : UInt32) (cmdline : List UInt8) (entries : List MemoryMap)

def infoReport : List UInt8 :=
  let info := MultibootInfo.read m mbi
  formatted cmdline "flags = 0x%#x\n" [info.flags] ++
  ((if checkFlag info.flags 0 then
      formatted cmdline "mem_lower = %uKB, mem_upper = %uKB\n" [info.memLower, info.memUpper] else []) ++
  ((if checkFlag info.flags 1 then formatted cmdline "boot_device = 0x%#x\n" [info.bootDevice] else []) ++
  (if checkFlag info.flags 2 then formatted cmdline "cmdline = %s\n" [info.cmdline] else [])))

def tablesReport : List UInt8 :=
  let info := MultibootInfo.read m mbi
  (if checkFlag info.flags 5 then
      formatted cmdline "elf_sec: num = %u, size = 0x%#x, addr = 0x%#x, shndx = 0x%#x\n"
        [info.elfNum, info.elfSize, info.elfAddr, info.elfShndx] else []) ++
  (if checkFlag info.flags 6 then
      formatted cmdline "mmap_addr = 0x%#x, mmap_length = 0x%x\n" [info.mmapAddr, info.mmapLength] ++
        entries.flatMap (entryReport cmdline) else [])

/-- What is printed until `entry` returns or goes on to the descriptors. -/
def report (magic : UInt32) : List UInt8 :=
  let info := MultibootInfo.read m mbi
  if magic ≠ bootloaderMagic then formatted cmdline "Invalid magic number: 0x%#x\n" [magic]
  else infoReport m mbi cmdline ++
    ((if checkFlag info.flags 3 then modulesReport m cmdline info.modsAddr 0 info.modsCount.toNat else []) ++
    (if checkFlag info.flags 4 && checkFlag info.flags 5 then formatted cmdline "Both bits 4 and 5 are set.\n" []
      else tablesReport m mbi cmdline entries))

/-- How `entry` gets through: it goes on with the first module behind a good magic number and flags. -/
def outcome (magic garbage : UInt32) (s : Console) : Outcome :=
  let info := MultibootInfo.read m mbi
  if magic = bootloaderMagic ∧ (checkFlag info.flags 4 && checkFlag info.flags 5) = false then
    .goesOn (if checkFlag info.flags 3 then (Module.read m info.modsAddr).modStart else garbage) s
  else .returns s

end Report

variable {cmdline : List UInt8} {entries : List MemoryMap}

theorem Loaded.flag (loaded : Loaded m mbi cmdline entries) (bit : UInt32) (s : Console) (agrees : Agrees m s) :
    checkFlag (Boot.info mbi s).flags bit = checkFlag (MultibootInfo.read m mbi).flags bit := by
  rw [agrees.info loaded.info]

theorem Loaded.printInfo (loaded : Loaded m mbi cmdline entries) (stack : Stack) :
    Reports m (fun rounds s => printInfo mbi stack rounds s) (infoReport m mbi cmdline) := by
  have same := fun s (agrees : Agrees m s) => agrees.info loaded.info
  have flags := reports_line cmdline stack "flags = 0x%#x\n" 1 (fun s => [(Boot.info mbi s).flags])
    [(MultibootInfo.read m mbi).flags] (fun s agrees => by rw [same s agrees]) rfl (by decide +kernel)
  have mem := reports_line cmdline stack "mem_lower = %uKB, mem_upper = %uKB\n" 2
    (fun s => [(Boot.info mbi s).memLower, (Boot.info mbi s).memUpper])
    [(MultibootInfo.read m mbi).memLower, (MultibootInfo.read m mbi).memUpper]
    (fun s agrees => by rw [same s agrees]) rfl (by decide +kernel)
  have device := reports_line cmdline stack "boot_device = 0x%#x\n" 1 (fun s => [(Boot.info mbi s).bootDevice])
    [(MultibootInfo.read m mbi).bootDevice] (fun s agrees => by rw [same s agrees]) rfl (by decide +kernel)
  have line (passed : checkFlag (MultibootInfo.read m mbi).flags 2 = true) :
      Reports m (fun rounds s => say stack rounds "cmdline = %s\n" [(Boot.info mbi s).cmdline] s)
        (formatted cmdline "cmdline = %s\n" [(MultibootInfo.read m mbi).cmdline]) := by
    refine reports_formatted (fun s agrees => by rw [same s agrees])
      (show suits 1 (quoted "cmdline = %s\n") = true by decide +kernel) fun v member => ?_
    -- The command line is the one string of the report.
    have pieces : parse none (quoted "cmdline = %s\n") = (quoted "cmdline = ").map .char ++ [.string, .char newline] := by
      decide +kernel
    rw [pieces, stringArguments_text] at member
    obtain rfl : v = (MultibootInfo.read m mbi).cmdline := by simpa [stringArguments] using member
    exact loaded.cmdline passed
  exact flags.bind ((Reports.guarded (loaded.flag 0) fun _ => mem).bind
    ((Reports.guarded (loaded.flag 1) fun _ => device).bind (Reports.guarded (loaded.flag 2) line)))

theorem Loaded.printModules (loaded : Loaded m mbi cmdline entries) (stack : Stack) :
    Reports m (fun rounds s => printModules mbi stack rounds s)
      (if checkFlag (MultibootInfo.read m mbi).flags 3 then
        modulesReport m cmdline (MultibootInfo.read m mbi).modsAddr 0 (MultibootInfo.read m mbi).modsCount.toNat
      else []) := by
  apply Reports.guarded (loaded.flag 3)
  intro there
  obtain ⟨clear, bytes⟩ := loaded.modules there
  have loop := modulesLoop_reports cmdline stack loaded.info clear _ 0 bytes (Nat.zero_add _) (fun rounds => rounds)
    ((MultibootInfo.read m mbi).modsCount.toNat + 1) fun _ more => more
  refine loop.congr fun rounds (_ : rounds ≥ 0) s agrees => ?_
  rw [agrees.info loaded.info]
  rfl

theorem Loaded.printTables (loaded : Loaded m mbi cmdline entries) (stack : Stack) :
    Reports m (fun rounds s => printTables mbi stack rounds s) (tablesReport m mbi cmdline entries) := by
  have same := fun s (agrees : Agrees m s) => agrees.info loaded.info
  have elf := reports_line cmdline stack "elf_sec: num = %u, size = 0x%#x, addr = 0x%#x, shndx = 0x%#x\n" 4
    (fun s => [(Boot.info mbi s).elfNum, (Boot.info mbi s).elfSize, (Boot.info mbi s).elfAddr,
      (Boot.info mbi s).elfShndx])
    [(MultibootInfo.read m mbi).elfNum, (MultibootInfo.read m mbi).elfSize, (MultibootInfo.read m mbi).elfAddr,
      (MultibootInfo.read m mbi).elfShndx]
    (fun s agrees => by rw [same s agrees]) rfl (by decide +kernel)
  have header := reports_line cmdline stack "mmap_addr = 0x%#x, mmap_length = 0x%x\n" 2
    (fun s => [(Boot.info mbi s).mmapAddr, (Boot.info mbi s).mmapLength])
    [(MultibootInfo.read m mbi).mmapAddr, (MultibootInfo.read m mbi).mmapLength]
    (fun s agrees => by rw [same s agrees]) rfl (by decide +kernel)
  refine (Reports.guarded (loaded.flag 5) fun _ => elf).bind (Reports.guarded (loaded.flag 6) fun there => ?_)
  obtain ⟨laid, length, fits⟩ := loaded.map there
  have limit : (MultibootInfo.read m mbi).mmapAddr.toNat + mapLength entries =
      ((MultibootInfo.read m mbi).mmapAddr + (MultibootInfo.read m mbi).mmapLength).toNat := by
    rw [toNat_add_of_lt (by omega), length]
  have loop := mmapLoop_reports cmdline stack loaded.info laid limit (fun rounds => rounds) (entries.length + 1)
    fun _ more => more
  rw [UInt32.ofNat_toNat] at loop
  refine header.bind (loop.congr fun rounds (_ : rounds ≥ 0) s agrees => ?_)
  rw [same s agrees]

theorem Loaded.fileptr (loaded : Loaded m mbi cmdline entries) (garbage : UInt32) (agrees : Agrees m s) :
    fileptr mbi garbage s = if checkFlag (MultibootInfo.read m mbi).flags 3 then
      (Module.read m (MultibootInfo.read m mbi).modsAddr).modStart else garbage := by
  rw [Boot.fileptr, agrees.info loaded.info]
  split
  next there => rw [agrees.module (loaded.modules there).1]
  next => rfl

end Boot

end Mp3Kernel
