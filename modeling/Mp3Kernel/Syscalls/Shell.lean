import Mp3Kernel.Syscalls.Execute
import Mp3Kernel.Syscalls.Getargs
import Mp3Kernel.Syscalls.Grep

/-!
# The shell

A session of `ece391shell.c`: what is typed and what becomes of the programs that are
started is given, and the shell's part of it is what it writes, which programs it
starts with which arguments, and what it returns.
-/

namespace Mp3Kernel

open Library

namespace Syscalls

/-! ## The code -/

/-- What happens in one round of the loop: the bytes that the read delivers, `none` for -1, and what becomes
of a program that is started with a path and arguments. -/
structure Round where
  read : Option (List UInt8)
  execv : List UInt8 → List (List UInt8) → Option WaitStatus

/-- `buf` of `main`, and what was written. -/
structure Shell where
  buf : LocalArray
  writes : List Write

/-- Behind `ece391_execute`. -/
def Shell.report (rounds : Nat) (rval : Int32) (sh : Shell) : Option Shell :=
  if rval = -1 then do
    let writes ← fdputs rounds 1 (message "no such command\n") sh.writes
    some { sh with writes := writes }
  else if rval = 256 then do
    let writes ← fdputs rounds 1 (message "program terminated by exception\n") sh.writes
    some { sh with writes := writes }
  else if rval ≠ 0 then do
    let writes ← fdputs rounds 1 (message "program terminated abnormally\n") sh.writes
    some { sh with writes := writes }
  else some sh

/-- `main`, and what it returns; the value is `none` while it waits for a line. `frame` is the stack for
`ece391_execute`. -/
def shellMain (rounds : Nat) (frame : Nat → UInt8) : List Round → Shell → Option (Option Int32 × Shell)
  | [], sh => do
    let writes ← fdputs rounds 1 (message "391OS> ") sh.writes
    some (none, { sh with writes := writes })
  | r :: session, sh => do
    let writes ← fdputs rounds 1 (message "391OS> ") sh.writes
    match r.read with
    | none =>
      let writes ← fdputs rounds 1 (message "read from keyboard failed\n") writes
      some (some 3, { sh with writes := writes })
    | some bytes =>
      let buf := sh.buf.storeList 0 bytes
      let cnt := if 0 < bytes.length ∧ buf.bytes (bytes.length - 1) = newline then bytes.length - 1 else bytes.length
      let buf := buf.store cnt 0
      let differ ← strcmp buf.bytes (message "exit") rounds 0
      if differ = 0 then some (some 0, ⟨buf, writes⟩)
      else if buf.bytes 0 = 0 then shellMain rounds frame session ⟨buf, writes⟩
      else
        let rval ← execute rounds r.execv buf.bytes frame
        let sh ← Shell.report rounds rval ⟨buf, writes⟩
        shellMain rounds frame session sh

/-! ## A session -/

def prompt : Write := ⟨1, quoted "391OS> "⟩

/-- The bytes of a line without the newline at their end. -/
def stripped (bytes : List UInt8) : List UInt8 := if bytes.getLast? = some newline then bytes.dropLast else bytes

/-- The command in a line: what is in front of a NUL. -/
def command (bytes : List UInt8) : List UInt8 := (stripped bytes).takeWhile (· ≠ 0)

/-- What the shell says to the end of a program. -/
def reply : Option WaitStatus → List Write
  | none => [⟨1, quoted "no such command\n"⟩]
  | some (.exited status) => if status = 0 then [] else [⟨1, quoted "program terminated abnormally\n"⟩]
  | some (.signalled signal) =>
    if signal = 9 then [⟨1, quoted "no such command\n"⟩] else [⟨1, quoted "program terminated by exception\n"⟩]

namespace Round

/-- What becomes of the program for a command. -/
def program (r : Round) (str : List UInt8) : Option WaitStatus := r.execv (programPath str) (programPath str :: arguments str)

/-- What is written in the round. -/
def output (r : Round) : List Write :=
  match r.read with
  | none => [prompt, ⟨1, quoted "read from keyboard failed\n"⟩]
  | some bytes =>
    if command bytes = quoted "exit" ∨ command bytes = [] then [prompt]
    else prompt :: reply (r.program (command bytes))

end Round

/-- A session as it is meant: the rounds go on up to one that ends them. -/
inductive Session : List Round → Option Int32 → List Write → Prop
  | waits : Session [] none [prompt]
  | fails {r : Round} {session : List Round} (failed : r.read = none) : Session (r :: session) (some 3) r.output
  | exits {r : Round} {session : List Round} {bytes : List UInt8} (line : r.read = some bytes)
      (exit : command bytes = quoted "exit") : Session (r :: session) (some 0) r.output
  | next {r : Round} {session : List Round} {bytes : List UInt8} {value : Option Int32} {writes : List Write}
      (line : r.read = some bytes) (other : command bytes ≠ quoted "exit") (rest : Session session value writes) :
      Session (r :: session) value (r.output ++ writes)

variable {rounds : Nat} {bytes str : List UInt8} {buf : LocalArray} {session : List Round} {frame : Nat → UInt8}
  {writes writes' : List Write} {value value' : Option Int32}

theorem Session.unique (first : Session session value writes) (second : Session session value' writes') :
    value' = value ∧ writes' = writes := by
  induction first generalizing value' writes' with
  | waits =>
    cases second
    exact ⟨rfl, rfl⟩
  | fails failed =>
    cases second with
    | fails => exact ⟨rfl, rfl⟩
    | exits line => exact absurd (line.symm.trans failed) (by simp)
    | next line => exact absurd (line.symm.trans failed) (by simp)
  | exits line exit =>
    cases second with
    | fails failed => exact absurd (line.symm.trans failed) (by simp)
    | exits => exact ⟨rfl, rfl⟩
    | next line' other =>
      obtain rfl := Option.some_inj.mp (line.symm.trans line')
      exact absurd exit other
  | next line other _ ih =>
    cases second with
    | fails failed => exact absurd (line.symm.trans failed) (by simp)
    | exits line' exit =>
      obtain rfl := Option.some_inj.mp (line.symm.trans line')
      exact absurd exit other
    | next _ _ rest =>
      obtain ⟨rfl, rfl⟩ := ih rest
      exact ⟨rfl, rfl⟩

/-! ## A line -/

theorem fdputs_message (text : String) (nonzero : ∀ c ∈ quoted text, c ≠ 0) (enough : (quoted text).length < rounds)
    (short : (quoted text).length < 2 ^ 32) :
    fdputs rounds 1 (message text) writes = some (writes ++ [⟨1, quoted text⟩]) :=
  fdputs_eq (literal_text nonzero) enough short

/-- The bytes in front of the first NUL. -/
theorem text_takeWhile {s : Nat → UInt8} (holds : Holds s 0 bytes) (last : s bytes.length = 0) :
    Text s (bytes.takeWhile (· ≠ 0)) := by
  have split : bytes.takeWhile (· ≠ 0) ++ bytes.dropWhile (· ≠ 0) = bytes := List.takeWhile_append_dropWhile
  have nonzero : ∀ c ∈ bytes.takeWhile (· ≠ 0), c ≠ 0 := fun c member =>
    of_decide_eq_true (List.all_eq_true.mp List.all_takeWhile c member)
  rw [← split] at holds
  obtain ⟨front, behind⟩ := holds_append.mp holds
  have nul : s (0 + (bytes.takeWhile (· ≠ 0)).length) = 0 := by
    cases rest : bytes.dropWhile (· ≠ 0) with
    | nil =>
      rw [rest, List.append_nil] at split
      rw [split, Nat.zero_add]
      exact last
    | cons c cs =>
      have stop := List.head?_dropWhile_not (· ≠ 0) bytes
      rw [rest] at behind stop
      have here := behind 0 (Nat.succ_pos _)
      rw [Nat.add_zero] at here
      rw [here]
      simpa using stop
  simpa only [Nat.zero_add] using front.text nonzero nul

/-- The line in the buffer, with a NUL for its newline. -/
def lineBuffer (bytes : List UInt8) (buf : LocalArray) : LocalArray :=
  (buf.storeList 0 bytes).store (stripped bytes).length 0

theorem line_command (buf : LocalArray) (bytes : List UInt8) :
    (if 0 < bytes.length ∧ (buf.storeList 0 bytes).bytes (bytes.length - 1) = newline then bytes.length - 1
      else bytes.length) = (stripped bytes).length ∧ Text (lineBuffer bytes buf).bytes (command bytes) := by
  have holds : Holds (buf.storeList 0 bytes).bytes 0 bytes := LocalArray.holds_storeList
  constructor
  · have last : (0 < bytes.length ∧ (buf.storeList 0 bytes).bytes (bytes.length - 1) = newline) ↔
        bytes.getLast? = some newline := by
      rcases List.eq_nil_or_concat' bytes with rfl | ⟨front, c, rfl⟩
      · exact iff_of_false (fun both => absurd both.1 (Nat.lt_irrefl 0)) (by simp)
      · have here := (holds_append.mp holds).2 0 (Nat.succ_pos _)
        rw [Nat.zero_add, Nat.add_zero] at here
        rw [List.length_append, List.length_singleton, Nat.add_sub_cancel, here, List.getLast?_concat]
        simp
    rw [stripped]
    simp only [last]
    split
    next => exact List.length_dropLast.symm
    next => rfl
  · have front : stripped bytes <+: bytes := by
      rw [stripped]
      split
      next => exact List.dropLast_prefix bytes
      next => exact List.prefix_refl bytes
    refine text_takeWhile ((holds.of_prefix front).keep fun i _ below => ?_) (Function.update_self _ _ _)
    exact Function.update_of_ne (by omega) _ _

/-- What the shell says to the end of a program. -/
theorem report_reply (sh : Shell) (outcome : Option WaitStatus) (enough : 1025 < rounds) :
    Shell.report rounds (outcome.getD (.signalled 9)).value sh = some { sh with writes := sh.writes ++ reply outcome } := by
  have notFound : fdputs rounds 1 (message "no such command\n") sh.writes = some _ :=
    fdputs_message _ (by simp [quoted]) (Nat.lt_of_le_of_lt (by decide) enough) (by decide)
  have exception : fdputs rounds 1 (message "program terminated by exception\n") sh.writes = some _ :=
    fdputs_message _ (by simp [quoted]) (Nat.lt_of_le_of_lt (by decide) enough) (by decide)
  have abnormal : fdputs rounds 1 (message "program terminated abnormally\n") sh.writes = some _ :=
    fdputs_message _ (by simp [quoted]) (Nat.lt_of_le_of_lt (by decide) enough) (by decide)
  rw [Shell.report, notFound, exception, abnormal]
  cases outcome with
  | none => rfl
  | some status =>
    cases status with
    | exited status =>
      -- An exit status is a byte, so it is neither -1 nor 256.
      have value : status.toUInt32.toInt32.toInt = status.toNat := toInt_toInt32_of_lt (by
        have bound := status.toNat_lt
        rw [UInt8.toNat_toUInt32]
        omega)
      have bound := status.toNat_lt
      have other : status.toUInt32.toInt32 ≠ -1 ∧ status.toUInt32.toInt32 ≠ 256 := by
        constructor
        · intro same
          rw [same] at value
          exact absurd value (by rw [show (-1 : Int32).toInt = -1 from rfl]; omega)
        · intro same
          rw [same] at value
          exact absurd value (by rw [show (256 : Int32).toInt = 256 from rfl]; omega)
      have zero : status.toUInt32.toInt32 = 0 ↔ status = 0 := by
        rw [← Int32.toInt_inj, value, ← UInt8.toNat_inj]
        exact Int.natCast_eq_zero
      rw [Option.getD_some, WaitStatus.value, if_neg other.1, if_neg other.2, reply]
      by_cases success : status = 0
      · rw [if_neg (not_not.mpr (zero.mpr success)), if_pos success, List.append_nil]
      · rw [if_pos (zero.not.mpr success), if_neg success]
        rfl
    | signalled signal =>
      rw [Option.getD_some, WaitStatus.value, reply]
      split
      next => rfl
      next => rfl

/-! ## The session -/

theorem length_command_le (bytes : List UInt8) : (stripped bytes).length ≤ bytes.length ∧
    (command bytes).length ≤ bytes.length := by
  have shorter : (stripped bytes).length ≤ bytes.length := by
    rw [stripped]
    split
    next => exact (List.dropLast_prefix bytes).length_le
    next => exact Nat.le_refl _
  exact ⟨shorter, (List.takeWhile_prefix _).length_le.trans shorter⟩

theorem prompts (enough : 1025 < rounds) :
    fdputs rounds 1 (message "391OS> ") writes = some (writes ++ [prompt]) :=
  fdputs_message _ (by simp [quoted]) (Nat.lt_of_le_of_lt (by decide) enough) (by decide)

/-- A round in which a line is read. -/
theorem shellMain_line {r : Round} (sh : Shell) (line : r.read = some bytes) (short : bytes.length ≤ 1023)
    (enough : 1025 < rounds) : shellMain rounds frame (r :: session) sh =
      if command bytes = quoted "exit" then some (some 0, ⟨lineBuffer bytes sh.buf, sh.writes ++ r.output⟩)
      else shellMain rounds frame session ⟨lineBuffer bytes sh.buf, sh.writes ++ r.output⟩ := by
  obtain ⟨cnt, text⟩ := line_command sh.buf bytes
  have few := (length_command_le bytes).2.trans short
  have empty : (lineBuffer bytes sh.buf).bytes 0 = 0 ↔ command bytes = [] := by
    cases here : command bytes with
    | nil => exact iff_of_true (here ▸ text : Text _ []) rfl
    | cons c cs =>
      have first : Text (lineBuffer bytes sh.buf).bytes (c :: cs) := here ▸ text
      exact iff_of_false (first.1 ▸ first.2.1) (List.cons_ne_nil c cs)
  obtain ⟨differ, compared, same⟩ : ∃ value, strcmp (lineBuffer bytes sh.buf).bytes (message "exit") rounds 0 =
      some value ∧ (value = 0 ↔ command bytes = quoted "exit") := by
    have exit : Text (fun k => message "exit" (0 + k)) (quoted "exit") := by
      simp only [Nat.zero_add]
      exact literal_text (by simp [quoted])
    have whole : Text (fun k => (lineBuffer bytes sh.buf).bytes (0 + k)) (command bytes) := by
      simp only [Nat.zero_add]
      exact text
    exact strcmp_eq_zero_iff whole exit (by omega)
  have output : r.output = if command bytes = quoted "exit" ∨ command bytes = [] then [prompt]
      else prompt :: reply (r.program (command bytes)) := by rw [Round.output, line]
  rw [shellMain, prompts enough]
  simp only [Option.bind_eq_bind, Option.bind_some, line, cnt]
  change ((strcmp (lineBuffer bytes sh.buf).bytes (message "exit") rounds 0).bind _) = _
  rw [compared]
  simp only [Option.bind_some, same]
  by_cases exit : command bytes = quoted "exit"
  · rw [if_pos exit, if_pos exit, output, if_pos (.inl exit)]
    rfl
  · rw [if_neg exit, if_neg exit]
    change (if (lineBuffer bytes sh.buf).bytes 0 = 0 then _ else _) = _
    simp only [empty]
    by_cases nothing : command bytes = []
    · rw [if_pos nothing, output, if_pos (.inr nothing)]
      rfl
    · have run := execute_eq r.execv text frame (Nat.lt_of_le_of_lt few (by decide)) (by omega) enough
      rw [if_neg (Nat.not_lt.mpr few)] at run
      rw [if_neg nothing, output, if_neg (not_or.mpr ⟨exit, nothing⟩)]
      change ((execute rounds r.execv (lineBuffer bytes sh.buf).bytes frame).bind _) = _
      rw [run, Option.bind_some]
      change ((Shell.report rounds ((r.program (command bytes)).getD (.signalled 9)).value _).bind _) = _
      rw [report_reply _ _ enough, Option.bind_some, List.append_assoc]
      rfl

theorem shellMain_session (frame : Nat → UInt8) (reads : ∀ r ∈ session, ∀ bytes, r.read = some bytes → bytes.length ≤ 1023)
    (enough : 1025 < rounds) (sh : Shell) (inside : ∀ i ∈ sh.buf.stores, i < 1024) :
    ∃ value sh' writes, shellMain rounds frame session sh = some (value, sh') ∧ Session session value writes ∧
      sh'.writes = sh.writes ++ writes ∧ ∀ i ∈ sh'.buf.stores, i < 1024 := by
  induction session generalizing sh with
  | nil =>
    rw [shellMain, prompts enough]
    exact ⟨none, _, _, rfl, .waits, rfl, inside⟩
  | cons r session ih =>
    rw [List.forall_mem_cons] at reads
    cases line : r.read with
    | none =>
      have failure : fdputs rounds 1 (message "read from keyboard failed\n") (sh.writes ++ [prompt]) = some _ :=
        fdputs_message _ (by simp [quoted]) (Nat.lt_of_le_of_lt (by decide) enough) (by decide)
      have output : r.output = [prompt, ⟨1, quoted "read from keyboard failed\n"⟩] := by rw [Round.output, line]
      rw [shellMain, prompts enough]
      simp only [Option.bind_eq_bind, Option.bind_some, line, failure]
      refine ⟨_, _, _, rfl, .fails line, ?_, inside⟩
      rw [output, List.append_assoc]
      rfl
    | some bytes =>
      have short := reads.1 bytes line
      have inside' : ∀ i ∈ (lineBuffer bytes sh.buf).stores, i < 1024 := by
        intro i member
        rcases List.mem_cons.mp member with rfl | stored
        · exact Nat.lt_succ_of_le ((length_command_le bytes).1.trans short)
        · rcases LocalArray.mem_storeList_stores.mp stored with between | old
          · omega
          · exact inside i old
      rw [shellMain_line sh line short enough]
      by_cases exit : command bytes = quoted "exit"
      · rw [if_pos exit]
        exact ⟨_, _, _, rfl, .exits line exit, rfl, inside'⟩
      · rw [if_neg exit]
        obtain ⟨value, sh', writes, result, later, written, safe⟩ := ih reads.2
          ⟨lineBuffer bytes sh.buf, sh.writes ++ r.output⟩ inside'
        exact ⟨value, sh', _, result, .next line exit later, by rw [written, List.append_assoc], safe⟩

/-- In every session the shell does what a session is: it prompts for a line, starts the program of each
command with its words until a line is `exit`, and answers what becomes of it; nothing is stored
behind `buf`. -/
theorem shell_runs_session (session : List Round) (frame stack : Nat → UInt8)
    (reads : ∀ r ∈ session, ∀ bytes, r.read = some bytes → bytes.length ≤ 1023) (enough : 1025 < rounds) :
    ∃ value sh, shellMain rounds frame session ⟨⟨stack, []⟩, []⟩ = some (value, sh) ∧
      Session session value sh.writes ∧
      (∀ value' writes', Session session value' writes' → value' = value ∧ writes' = sh.writes) ∧
      ∀ i ∈ sh.buf.stores, i < 1024 := by
  obtain ⟨value, sh, writes, result, meant, written, inside⟩ := shellMain_session frame reads enough
    ⟨⟨stack, []⟩, []⟩ fun i member => absurd member List.not_mem_nil
  obtain rfl : sh.writes = writes := written
  exact ⟨value, sh, result, meant, fun _ _ other => meant.unique other, inside⟩

/-- The lines `ls  x` and `exit`; `ls` returns 1. -/
theorem shell_runs_session_sample : ∃ value sh,
    shellMain 1026 (fun _ => 7) [⟨some (lsX.bytes ++ [newline]), fun _ _ => some (.exited 1)⟩,
      ⟨some (quoted "exit"), fun _ _ => none⟩] ⟨⟨fun _ => 7, []⟩, []⟩ = some (value, sh) ∧
      Session [⟨some (lsX.bytes ++ [newline]), fun _ _ => some (.exited 1)⟩, ⟨some (quoted "exit"), fun _ _ => none⟩]
        value sh.writes ∧
      (∀ value' writes', Session [⟨some (lsX.bytes ++ [newline]), fun _ _ => some (.exited 1)⟩,
        ⟨some (quoted "exit"), fun _ _ => none⟩] value' writes' → value' = value ∧ writes' = sh.writes) ∧
      ∀ i ∈ sh.buf.stores, i < 1024 := by
  apply shell_runs_session
  · simp only [List.forall_mem_cons, Option.some_inj, forall_eq', List.not_mem_nil, false_imp_iff, implies_true,
      and_true]
    decide
  · decide

/-! ## The arguments of a program -/

theorem sum_length_spaced (args : List CString) :
    (spaced args).length = ((args.map CString.bytes).map fun w => w.length + 1).sum := by
  induction args with
  | nil => rfl
  | cons arg args ih =>
    rw [length_spaced_cons, ih, List.map_cons, List.map_cons, List.sum_cons]

theorem length_joined_le (args : List CString) : (joined args).length ≤ (spaced args).length := by
  induction args with
  | nil => exact Nat.le_refl 0
  | cons arg rest ih =>
    rw [length_spaced_cons]
    by_cases last : rest = []
    · rw [last, joined_singleton]
      omega
    · rw [joined_cons last, List.length_append, List.length_cons]
      omega

/-- An argument ends inside the joined ones. -/
theorem length_le_joined (before : List CString) (arg : CString) (after : List CString) :
    (spaced before).length + arg.bytes.length ≤ (joined (before ++ arg :: after)).length := by
  induction before with
  | nil => exact (Nat.zero_add _).trans_le length_le_joined_cons
  | cons first before ih =>
    have more : before ++ arg :: after ≠ [] := List.append_ne_nil_of_right_ne_nil before (List.cons_ne_nil _ _)
    rw [List.cons_append, joined_cons more, length_spaced_cons, List.length_append, List.length_cons]
    omega

/-- The call of the programs that ask for their arguments, when these fit in 1024 bytes. -/
theorem getargs_joined (argv : List CString) (short : (joined (argv.drop 1)).length ≤ 1023) (enough : 1023 < rounds)
    (stack : Nat → UInt8) : ∃ after, getargs rounds argv 1024 ⟨stack, []⟩ = some (0, after) ∧
      Text after.bytes (joined (argv.drop 1)) ∧ ∀ i ∈ after.stores, i < 1024 := by
  have size : (1024 : Int32).toInt = 1024 := rfl
  have safe : ¬Overruns (argv.drop 1) (1024 : Int32).toInt := by
    rintro ⟨before, arg, after, split, _, full⟩
    have inside := length_le_joined before arg after
    rw [← split] at inside
    omega
  have long : ∀ arg ∈ argv.drop 1, arg.bytes.length < rounds := by
    intro arg member
    obtain ⟨before, after, split⟩ := List.append_of_mem member
    have inside := length_le_joined before arg after
    rw [← split] at inside
    omega
  obtain ⟨value, after, result, joins⟩ := getargsLoop_joins 0 ⟨stack, []⟩ (by decide) safe long
  obtain ⟨rfl, text⟩ := joins.fits (by omega)
  simp only [Nat.zero_add] at text
  refine ⟨after, result, text, fun i member => ?_⟩
  rcases joins.stores i member with inside | none
  · omega
  · exact absurd none List.not_mem_nil

/-- A program that `ece391_execute` starts and that asks for its arguments as `cat` and `grep` do gets the words
of the command behind the first one, with one space between two, and nothing is stored behind its
buffer. -/
theorem program_gets_words (line : CString) (short : line.bytes.length ≤ 1023) (enough : 1025 < rounds)
    (frame stack : Nat → UInt8) (argv : List CString)
    (started : argv.map CString.bytes = programPath line.bytes :: arguments line.bytes) :
    (∀ execv, execute rounds execv line.pointer frame =
      some ((execv (programPath line.bytes) (argv.map CString.bytes)).getD (.signalled 9)).value) ∧
    ∃ after, getargs rounds argv 1024 ⟨stack, []⟩ = some (0, after) ∧
      Text after.bytes ([space].intercalate (arguments line.bytes)) ∧ ∀ i ∈ after.stores, i < 1024 := by
  obtain ⟨arg, args, rfl⟩ : ∃ arg args, argv = arg :: args :=
    List.exists_cons_of_ne_nil fun none => by simp [none] at started
  have words : args.map CString.bytes = arguments line.bytes := (List.cons.inj started).2
  constructor
  · intro execv
    have run := execute_eq execv line.text frame line.short (by omega) enough
    rwa [if_neg (Nat.not_lt.mpr short), ← started] at run
  · have length := length_joined_le args
    have all := sum_length_arguments line.bytes
    rw [sum_length_spaced, words] at length
    obtain ⟨after, result, text, inside⟩ := getargs_joined (arg :: args) ((length.trans all).trans short)
      (Nat.lt_of_le_of_lt (by decide) enough) stack
    refine ⟨after, result, ?_, inside⟩
    have whole : Text after.bytes (joined args) := text
    rwa [joined, words] at whole

theorem program_gets_words_sample :
    (∀ execv, execute 1026 execv lsX.pointer (fun _ => 7) =
      some ((execv (programPath lsX.bytes) ([⟨[0x2E, 0x2F, 0x6C, 0x73], by simp, by decide⟩, argX].map
        CString.bytes)).getD (.signalled 9)).value) ∧
    ∃ after, getargs 1026 [⟨[0x2E, 0x2F, 0x6C, 0x73], by simp, by decide⟩, argX] 1024 ⟨fun _ => 7, []⟩ =
      some (0, after) ∧ Text after.bytes ([space].intercalate (arguments lsX.bytes)) ∧
      ∀ i ∈ after.stores, i < 1024 :=
  program_gets_words lsX (by decide) (by decide) (fun _ => 7) (fun _ => 7) _ (by decide)

end Syscalls

end Mp3Kernel
