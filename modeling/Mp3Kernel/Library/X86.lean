import Mp3Kernel.Library.PageTable

/-!
# A fragment of the 32-bit x86

The instructions that routines over blocks of memory are made of: tests and
jumps, arithmetic on registers, and the string instructions with their repeat
prefix and their direction flag. All segments are flat, so an address is an
offset; the selectors are kept, but no access depends on them.

Programs are written as in the assembler, in the order of its operands, with
labels between the instructions. One step executes one instruction, or one round
of a repeated one.
-/

namespace Mp3Kernel.Library

/-! ## Blocks of memory -/

namespace Memory

/-- The bytes after `value k` was stored at `dest + k`, for `k < n`. -/
def fillBlock (dest : UInt32) (n : Nat) (value : Nat → UInt8) (bytes : UInt32 → UInt8) :
    UInt32 → UInt8 := fun a =>
  if (a - dest).toNat < n then value (a - dest).toNat else bytes a

/-- The bytes after the `n` bytes at `src`, read together, were stored at `dest`. -/
def copyBlock (dest src : UInt32) (n : Nat) (bytes : UInt32 → UInt8) : UInt32 → UInt8 := fun a =>
  if (a - dest).toNat < n then bytes (src + (a - dest)) else bytes a

/-! ### Blocks put together -/

section Blocks

variable {dest src a : UInt32} {i n : Nat} {bytes : UInt32 → UInt8}

/-- The distance to an address behind `dest`. -/
theorem toNat_sub_offset (before : i ≤ (a - dest).toNat) :
    (a - (dest + UInt32.ofNat i)).toNat = (a - dest).toNat - i := by
  have bound := (a - dest).toNat_lt
  have size : (UInt32.ofNat i).toNat = i :=
    UInt32.toNat_ofNat_of_lt' (show i < 2 ^ 32 by omega)
  have shift : a - (dest + UInt32.ofNat i) = (a - dest) - UInt32.ofNat i := by grind
  rw [shift, toNat_sub_of_le (by omega), size]

theorem sub_offset_lt_iff (fits : i + n ≤ 2 ^ 32) :
    (a - (dest + UInt32.ofNat i)).toNat < n ↔ i ≤ (a - dest).toNat ∧ (a - dest).toNat < i + n := by
  by_cases before : i ≤ (a - dest).toNat
  · rw [toNat_sub_offset before]
    omega
  · -- The address is in front of the block, which is far behind it around the end of memory.
    have bound := (a - dest).toNat_lt
    have shift : a - (dest + UInt32.ofNat i) = (a - dest) - UInt32.ofNat i := by grind
    have far : n ≤ (a - (dest + UInt32.ofNat i)).toNat := by
      rw [shift, UInt32.toNat_sub, UInt32.toNat_ofNat']
      omega
    omega

@[simp] theorem fillBlock_zero (value : Nat → UInt8) : fillBlock dest 0 value bytes = bytes := by
  funext a
  simp [fillBlock]

@[simp] theorem copyBlock_zero : copyBlock dest src 0 bytes = bytes := by
  funext a
  simp [copyBlock]

theorem update_eq_fillBlock (value : UInt8) :
    Function.update bytes dest value = fillBlock dest 1 (fun _ => value) bytes := by
  funext a
  have here : a = dest ↔ (a - dest).toNat < 1 := by
    have start := @eq_add_ofNat_iff a dest 0 (by omega)
    rw [show UInt32.ofNat 0 = 0 from rfl, UInt32.add_zero] at start
    rw [Nat.lt_one_iff, start]
  simp only [Function.update_apply, fillBlock, here]

theorem update_eq_copyBlock : Function.update bytes dest (bytes src) = copyBlock dest src 1 bytes := by
  rw [update_eq_fillBlock]
  funext a
  simp only [fillBlock, copyBlock]
  split
  next here =>
    have same : a - dest = 0 := UInt32.toNat_inj.mp (Nat.lt_one_iff.mp here)
    rw [same, UInt32.add_zero]
  next => rfl

/-- Two blocks filled one behind the other. -/
theorem fillBlock_add (value : Nat → UInt8) (fits : i + n ≤ 2 ^ 32) :
    fillBlock (dest + UInt32.ofNat i) n (fun k => value (i + k)) (fillBlock dest i value bytes) =
      fillBlock dest (i + n) value bytes := by
  funext a
  simp only [fillBlock, sub_offset_lt_iff fits]
  rcases Nat.lt_trichotomy (a - dest).toNat i with before | start | behind
  · rw [if_neg (by omega), if_pos before, if_pos (by omega)]
  all_goals
    by_cases inside : (a - dest).toNat < i + n
    · rw [if_pos (by omega), if_pos inside, toNat_sub_offset (by omega)]
      congr 1
      omega
    · rw [if_neg (by omega), if_neg (by omega), if_neg inside]

/-- Two blocks copied one behind the other, when the first store leaves the second source alone. -/
theorem copyBlock_add (fits : i + n ≤ 2 ^ 32)
    (unread : ∀ k, i ≤ k → k < i + n → i ≤ (src + UInt32.ofNat k - dest).toNat) :
    copyBlock (dest + UInt32.ofNat i) (src + UInt32.ofNat i) n (copyBlock dest src i bytes) =
      copyBlock dest src (i + n) bytes := by
  funext a
  simp only [copyBlock, sub_offset_lt_iff fits]
  by_cases before : (a - dest).toNat < i
  · rw [if_neg (by omega), if_pos before, if_pos (by omega)]
  · by_cases inside : (a - dest).toNat < i + n
    · have source : src + UInt32.ofNat i + (a - (dest + UInt32.ofNat i)) = src + (a - dest) := by grind
      have old := unread (a - dest).toNat (by omega) inside
      rw [UInt32.ofNat_toNat] at old
      rw [if_pos (by omega), if_pos inside, source, if_neg (by omega)]
    · rw [if_neg (by omega), if_neg before, if_neg inside]

/-- A byte copied in front of a block that was copied before. -/
theorem copyBlock_cons (fits : n + 1 ≤ 2 ^ 32) (unread : n ≤ (src - (dest + 1)).toNat) :
    copyBlock dest src 1 (copyBlock (dest + 1) (src + 1) n bytes) = copyBlock dest src (n + 1) bytes := by
  funext a
  have behind := @sub_offset_lt_iff dest a 1 n (by omega)
  rw [show UInt32.ofNat 1 = 1 from rfl] at behind
  have source : src + 1 + (a - (dest + 1)) = src + (a - dest) := by grind
  simp only [copyBlock, behind, source]
  by_cases first : (a - dest).toNat < 1
  · have same : a - dest = 0 := UInt32.toNat_inj.mp (Nat.lt_one_iff.mp first)
    have old : ¬(src + (a - dest) - (dest + 1)).toNat < n := by
      rw [same, UInt32.add_zero]
      omega
    rw [if_pos first, if_neg old, if_pos (by omega)]
  · by_cases inside : (a - dest).toNat < n + 1
    · rw [if_neg first, if_pos (by omega), if_pos inside]
    · rw [if_neg first, if_neg (by omega), if_neg inside]

end Blocks

end Memory

/-! ## The machine -/

inductive Reg where
  | eax | ecx | edx | esi | edi
  deriving DecidableEq, Repr

structure Cpu where
  eip : Nat
  eax : UInt32
  ecx : UInt32
  edx : UInt32
  esi : UInt32
  edi : UInt32
  ds : UInt16
  es : UInt16
  zf : Bool
  cf : Bool
  df : Bool
  bytes : UInt32 → UInt8

/-- The size of the elements of a string instruction. -/
inductive Width where
  | byte | word | dword
  deriving DecidableEq, Repr

def Width.size : Width → Nat
  | .byte => 1
  | .word => 2
  | .dword => 4

inductive Instr (Label : Type) where
  | label (l : Label)
  | test (a b : Reg)
  | testImm (imm : UInt32) (r : Reg)
  | cmp (a b : Reg)
  | jz (l : Label)
  | jae (l : Label)
  | jmp (l : Label)
  /-- `movb (r), %al` -/
  | loadAl (r : Reg)
  /-- `movb %al, (r)` -/
  | storeAl (r : Reg)
  /-- `movw %ds, r` with the low half of `r` -/
  | movFromDs (r : Reg)
  /-- `movw r, %es` with the low half of `r` -/
  | movToEs (r : Reg)
  | mov (a b : Reg)
  | addImm (imm : UInt32) (r : Reg)
  | subImm (imm : UInt32) (r : Reg)
  | andImm (imm : UInt32) (r : Reg)
  | shrImm (imm : UInt32) (r : Reg)
  /-- `leal disp(base, index), r` -/
  | lea (disp : UInt32) (base index r : Reg)
  | cld
  | std
  | repStos (w : Width)
  | repMovs (w : Width)
  deriving DecidableEq, Repr

namespace Cpu

def get : Reg → Cpu → UInt32
  | .eax, s => s.eax
  | .ecx, s => s.ecx
  | .edx, s => s.edx
  | .esi, s => s.esi
  | .edi, s => s.edi

def set (value : UInt32) : Reg → Cpu → Cpu
  | .eax, s => { s with eax := value }
  | .ecx, s => { s with ecx := value }
  | .edx, s => { s with edx := value }
  | .esi, s => { s with esi := value }
  | .edi, s => { s with edi := value }

def next (s : Cpu) : Cpu := { s with eip := s.eip + 1 }

/-- The flags after an operation with this result and this carry. -/
def flags (result : UInt32) (carry : Bool) (s : Cpu) : Cpu := { s with zf := result = 0, cf := carry }

def al (s : Cpu) : UInt8 := s.eax.toUInt8

/-- `%eax` with `value` in its low byte. -/
def withAl (value : UInt8) (s : Cpu) : UInt32 := (s.eax &&& 0xFFFFFF00) ||| value.toUInt32

/-- Where a string instruction goes from `addr`. -/
def onward (w : Width) (addr : UInt32) (s : Cpu) : UInt32 :=
  if s.df then addr - UInt32.ofNat w.size else addr + UInt32.ofNat w.size

/-- One element of `stos`. -/
def stosRound (w : Width) (s : Cpu) : Cpu :=
  { s with
    bytes := Memory.fillBlock s.edi w.size (Memory.byteOf s.eax) s.bytes
    edi := s.onward w s.edi
    ecx := s.ecx - 1 }

/-- One element of `movs`. -/
def movsRound (w : Width) (s : Cpu) : Cpu :=
  { s with
    bytes := Memory.copyBlock s.edi s.esi w.size s.bytes
    esi := s.onward w s.esi
    edi := s.onward w s.edi
    ecx := s.ecx - 1 }

@[simp] theorem next_df (s : Cpu) : s.next.df = s.df := rfl

@[simp] theorem flags_df (result : UInt32) (carry : Bool) (s : Cpu) : (s.flags result carry).df = s.df := rfl

@[simp] theorem set_df (value : UInt32) (r : Reg) (s : Cpu) : (s.set value r).df = s.df := by
  cases r <;> rfl

end Cpu

@[simp] theorem Cpu.toUInt8_withAl (value : UInt8) (s : Cpu) : (s.withAl value).toUInt8 = value := by
  apply UInt8.toBitVec_inj.mp
  apply BitVec.eq_of_getLsbD_eq
  intro i small
  simp only [Cpu.withAl, UInt32.toBitVec_toUInt8, UInt32.toBitVec_or, UInt32.toBitVec_and,
    UInt8.toBitVec_toUInt32, BitVec.getLsbD_setWidth, BitVec.getLsbD_or, BitVec.getLsbD_and, small]
  interval_cases i <;> simp

variable {Label : Type} [DecidableEq Label]

/-- The place of a label in the program. -/
def labelPlace (code : List (Instr Label)) (l : Label) : Nat := code.idxOf (.label l)

/-- What an instruction of `code` does. -/
def execInstr (code : List (Instr Label)) (i : Instr Label) (s : Cpu) : Cpu :=
  match i with
  | .label _ => s.next
  | .test a b => (s.flags (s.get a &&& s.get b) false).next
  | .testImm imm r => (s.flags (imm &&& s.get r) false).next
  | .cmp a b => (s.flags (s.get b - s.get a) (s.get b < s.get a)).next
  | .jz l => if s.zf then { s with eip := labelPlace code l } else s.next
  | .jae l => if s.cf then s.next else { s with eip := labelPlace code l }
  | .jmp l => { s with eip := labelPlace code l }
  | .loadAl r => { s with eax := s.withAl (s.bytes (s.get r)) }.next
  | .storeAl r => { s with bytes := Function.update s.bytes (s.get r) s.al }.next
  | .movFromDs r => (s.set ((s.get r &&& 0xFFFF0000) ||| s.ds.toUInt32) r).next
  | .movToEs r => { s with es := (s.get r).toUInt16 }.next
  | .mov a b => (s.set (s.get a) b).next
  | .addImm imm r =>
    ((s.set (s.get r + imm) r).flags (s.get r + imm) (s.get r + imm < imm)).next
  | .subImm imm r => ((s.set (s.get r - imm) r).flags (s.get r - imm) (s.get r < imm)).next
  | .andImm imm r => ((s.set (s.get r &&& imm) r).flags (s.get r &&& imm) false).next
  | .shrImm imm r =>
    -- The carry is the last bit shifted out.
    ((s.set (s.get r >>> imm) r).flags (s.get r >>> imm)
      (s.get r >>> (imm - 1) &&& 1 = 1)).next
  | .lea disp base index r => (s.set (s.get base + s.get index + disp) r).next
  | .cld => { s with df := false }.next
  | .std => { s with df := true }.next
  | .repStos w => if s.ecx = 0 then s.next else s.stosRound w
  | .repMovs w => if s.ecx = 0 then s.next else s.movsRound w

/-- One step; behind the last instruction the program has ended. -/
def step (code : List (Instr Label)) (s : Cpu) : Cpu :=
  match code[s.eip]? with
  | none => s
  | some i => execInstr code i s

/-- `t` is reached from `s` in at most `m` steps. -/
def Within (code : List (Instr Label)) (m : Nat) (s t : Cpu) : Prop :=
  ∃ k ≤ m, (step code)^[k] s = t

variable {code : List (Instr Label)} {s t u : Cpu} {m m' : Nat}

theorem Within.refl (code : List (Instr Label)) (s : Cpu) : Within code 0 s s := ⟨0, Nat.le_refl 0, rfl⟩

theorem Within.mono (reached : Within code m s t) (le : m ≤ m') : Within code m' s t := by
  obtain ⟨k, bound, steps⟩ := reached
  exact ⟨k, Nat.le_trans bound le, steps⟩

theorem Within.trans (first : Within code m s t) (second : Within code m' t u) :
    Within code (m + m') s u := by
  obtain ⟨k, bound, rfl⟩ := first
  obtain ⟨k', bound', rfl⟩ := second
  refine ⟨k' + k, by omega, ?_⟩
  exact Function.iterate_add_apply (step code) k' k s

/-- One instruction, and then the rest. -/
theorem Within.cons {i : Instr Label} (here : code[s.eip]? = some i)
    (later : Within code m (execInstr code i s) t) : Within code (m + 1) s t := by
  obtain ⟨k, bound, steps⟩ := later
  refine ⟨k + 1, by omega, ?_⟩
  rw [Function.iterate_succ_apply, step, here]
  exact steps

/-- A program that has ended stays as it is, so more steps than it takes make no difference. -/
theorem Within.iterate (reached : Within code m s t) (ended : code.length ≤ t.eip) (enough : m ≤ m') :
    (step code)^[m'] s = t := by
  obtain ⟨k, bound, rfl⟩ := reached
  have rest : m' = (m' - k) + k := by omega
  rw [rest, Function.iterate_add_apply]
  apply Function.iterate_fixed
  rw [step, List.getElem?_eq_none ended]

/-- Only `std` sets the direction flag. -/
theorem step_clear (never : .std ∉ code) (clear : s.df = false) : (step code s).df = false := by
  rw [step]
  cases fetched : code[s.eip]? with
  | none => exact clear
  | some i =>
    simp only
    cases i with
    | std => exact absurd (List.mem_of_getElem? fetched) never
    | cld => rfl
    | jz l | jae l | repStos w | repMovs w =>
      rw [execInstr]
      split
      · exact clear
      · exact clear
    | label l | jmp l | loadAl r | storeAl r | movToEs r => exact clear
    | test a b | testImm imm r | cmp a b | movFromDs r | mov a b | addImm imm r | subImm imm r
    | andImm imm r | shrImm imm r | lea disp base index r =>
      simp only [execInstr, Cpu.next_df, Cpu.flags_df, Cpu.set_df, clear]

theorem iterate_step_clear (never : .std ∉ code) (clear : s.df = false) (k : Nat) :
    ((step code)^[k] s).df = false := by
  induction k generalizing s with
  | zero => exact clear
  | succ k ih => exact ih (step_clear never clear)

/-! ## Repeated instructions -/

/-- What `n` rounds of `stos` leave behind, going upwards. -/
theorem iterate_stosRound (w : Width) {n : Nat} (upwards : s.df = false) (fits : w.size * n ≤ 2 ^ 32) :
    (Cpu.stosRound w)^[n] s =
      { s with
        bytes := Memory.fillBlock s.edi (w.size * n) (fun k => Memory.byteOf s.eax (k % w.size)) s.bytes
        edi := s.edi + UInt32.ofNat (w.size * n)
        ecx := s.ecx - UInt32.ofNat n } := by
  induction n with
  | zero => simp
  | succ n ih =>
    rw [Nat.mul_succ] at fits ⊢
    have element : Memory.fillBlock (s.edi + UInt32.ofNat (w.size * n)) w.size (Memory.byteOf s.eax) =
        Memory.fillBlock (s.edi + UInt32.ofNat (w.size * n)) w.size
          (fun k => Memory.byteOf s.eax ((w.size * n + k) % w.size)) := by
      funext bytes a
      simp only [Memory.fillBlock]
      split
      next inside => rw [Nat.mul_add_mod, Nat.mod_eq_of_lt inside]
      next => rfl
    rw [Function.iterate_succ_apply', ih (by omega)]
    simp only [Cpu.stosRound, Cpu.onward, upwards, element, Bool.false_eq_true, if_false]
    rw [Memory.fillBlock_add (fun k => Memory.byteOf s.eax (k % w.size)) fits, UInt32.add_assoc,
      ← UInt32.ofNat_add, UInt32.ofNat_add n 1]
    congr 1
    grind

/-- What `n` rounds of `movs` leave behind, going upwards, when no byte is stored over a byte that
is still to be read. -/
theorem iterate_movsRound (w : Width) {n : Nat} (upwards : s.df = false) (fits : w.size * n ≤ 2 ^ 32)
    (unread : ∀ k < w.size * n, k ≤ (s.esi + UInt32.ofNat k - s.edi).toNat) :
    (Cpu.movsRound w)^[n] s =
      { s with
        bytes := Memory.copyBlock s.edi s.esi (w.size * n) s.bytes
        esi := s.esi + UInt32.ofNat (w.size * n)
        edi := s.edi + UInt32.ofNat (w.size * n)
        ecx := s.ecx - UInt32.ofNat n } := by
  induction n with
  | zero => simp
  | succ n ih =>
    rw [Nat.mul_succ] at fits unread ⊢
    rw [Function.iterate_succ_apply', ih (by omega) fun k inside => unread k (by omega)]
    simp only [Cpu.movsRound, Cpu.onward, upwards, Bool.false_eq_true, if_false]
    rw [Memory.copyBlock_add fits fun k after inside => Nat.le_trans after (unread k inside),
      UInt32.add_assoc, UInt32.add_assoc, ← UInt32.ofNat_add, UInt32.ofNat_add n 1]
    congr 1
    grind

/-- What `n` rounds of `movsb` leave behind, going downwards from the last byte. -/
theorem iterate_movsbRound_down {n : Nat} (downwards : s.df = true) (fits : n ≤ 2 ^ 32)
    (unread : n ≤ (s.esi - (s.edi + 1)).toNat + 1) :
    (Cpu.movsRound .byte)^[n] s =
      { s with
        bytes := Memory.copyBlock (s.edi + 1 - UInt32.ofNat n) (s.esi + 1 - UInt32.ofNat n) n s.bytes
        esi := s.esi - UInt32.ofNat n
        edi := s.edi - UInt32.ofNat n
        ecx := s.ecx - UInt32.ofNat n } := by
  induction n with
  | zero => simp
  | succ n ih =>
    rw [Function.iterate_succ_apply', ih (by omega) (by omega)]
    simp only [Cpu.movsRound, Cpu.onward, downwards, if_true, Width.size]
    have one : UInt32.ofNat 1 = 1 := rfl
    have shift (p : UInt32) : p + 1 - UInt32.ofNat n = p - UInt32.ofNat n + 1 := by grind
    have shift' (p : UInt32) : p + 1 - UInt32.ofNat (n + 1) = p - UInt32.ofNat n := by
      rw [UInt32.ofNat_add, one]
      grind
    have gap : s.esi - UInt32.ofNat n - (s.edi - UInt32.ofNat n + 1) = s.esi - (s.edi + 1) := by grind
    rw [shift, shift, Memory.copyBlock_cons fits (by rw [gap]; omega), shift', shift', UInt32.ofNat_add,
      one]
    congr 1
    · grind
    · grind
    · grind

/-- A repeated instruction makes as many rounds as `%ecx` says. -/
theorem within_rep {i : Instr Label} {round : Cpu → Cpu}
    (repeats : ∀ s, execInstr code i s = if s.ecx = 0 then s.next else round s)
    (stays : ∀ s, (round s).eip = s.eip) (counts : ∀ s, (round s).ecx = s.ecx - 1)
    (here : code[s.eip]? = some i) :
    Within code (s.ecx.toNat + 1) s (round^[s.ecx.toNat] s).next := by
  induction rounds : s.ecx.toNat generalizing s with
  | zero =>
    have done : s.ecx = 0 := UInt32.toNat_inj.mp rounds
    apply Within.cons here
    rw [repeats, if_pos done]
    exact .refl code _
  | succ n ih =>
    have more : s.ecx ≠ 0 := by
      intro zero
      rw [zero] at rounds
      exact absurd rounds (by simp)
    apply Within.cons here
    rw [repeats, if_neg more, Function.iterate_succ_apply]
    apply ih
    · rw [stays]
      exact here
    · rw [counts, toNat_sub_of_le]
      · rw [rounds]
        rfl
      · rw [rounds]
        exact Nat.le_add_left 1 n

end Mp3Kernel.Library
