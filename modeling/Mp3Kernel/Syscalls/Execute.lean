import Mathlib.Data.List.TakeWhile
import Mp3Kernel.Syscalls.Support

/-!
# The emulated `ece391_execute`

The command is copied to a buffer behind `./`, and the words in it become the
arguments of the program in place: a NUL is stored behind each of them, and `args`
gets a pointer to its first byte. A newline ends the command unless it stands
directly behind a word.
-/

namespace Mp3Kernel

open Library

namespace Syscalls

/-! ## The code -/

/-- `while (more(*scan)) scan++` -/
def scanWhile (more : UInt8 → Bool) (s : Nat → UInt8) : Nat → Nat → Option Nat
  | 0, _ => none
  | rounds + 1, scan => if more (s scan) then scanWhile more s rounds (scan + 1) else some scan

/-- `'\0' != c && ' ' != c && '\n' != c` -/
def inWord (c : UInt8) : Bool := c ≠ 0 ∧ c ≠ space ∧ c ≠ newline

/-- `buf`, and the pointers into it that are in `args`, from `args[0]` on. -/
structure Command where
  buf : LocalArray
  args : List Nat

/-- The loop that parses the arguments. -/
def parseArguments (rounds : Nat) : Nat → Nat → Command → Option Command
  | 0, _, _ => none
  | left + 1, scan, ⟨buf, args⟩ => do
    let scan ← scanWhile (· = space) buf.bytes rounds scan
    if buf.bytes scan = 0 ∨ buf.bytes scan = newline then some ⟨buf.store scan 0, args⟩
    else
      let behind ← scanWhile inWord buf.bytes rounds scan
      if buf.bytes behind ≠ 0 then
        parseArguments rounds left (behind + 1) ⟨buf.store behind 0, args ++ [scan]⟩
      else parseArguments rounds left behind ⟨buf, args ++ [scan]⟩

/-- `buf` and `args` when the program is started; `stack` is what `buf` holds before. -/
def parseCommand (rounds : Nat) (command stack : Nat → UInt8) : Option Command := do
  let buf := (LocalArray.store 0 0x2E ⟨stack, []⟩).store 1 0x2F
  let buf ← strcpy (fun _ => command) 2 rounds 0 buf
  let scan ← scanWhile inWord buf.bytes rounds 2
  if buf.bytes scan ≠ 0 then parseArguments rounds rounds (scan + 1) ⟨buf.store scan 0, [0]⟩
  else some ⟨buf, [0]⟩

/-- What `wait` tells about the program. -/
inductive WaitStatus where
  | exited (status : UInt8)
  | signalled (signal : Nat)
  deriving DecidableEq

def WaitStatus.value : WaitStatus → Int32
  | .exited status => status.toUInt32.toInt32
  | .signalled signal => if signal = 9 then -1 else 256

/-- `execv` is given the path and the arguments, and is `none` when it returns: the child is killed then. -/
def execute (rounds : Nat) (execv : List UInt8 → List (List UInt8) → Option WaitStatus)
    (command stack : Nat → UInt8) : Option Int32 := do
  let length ← strlen rounds command
  if 1023 < length then some (-1)
  else
    let parsed ← parseCommand rounds command stack
    let path ← readText parsed.buf.bytes rounds 0
    let argv ← parsed.args.mapM (readText parsed.buf.bytes rounds)
    some ((execv path argv).getD (.signalled 9)).value

/-! ## Words -/

/-- The words of the bytes, where `word` has been read already. -/
def wordsBehind (word : List UInt8) : List UInt8 → List (List UInt8)
  | [] => if word = [] then [] else [word]
  | c :: rest =>
    if c = space then if word = [] then wordsBehind [] rest else word :: wordsBehind [] rest
    else if c = newline then if word = [] then [] else word :: wordsBehind [] rest
    else wordsBehind (word ++ [c]) rest

/-- The path of the program: the bytes up to the first blank, behind `./`. -/
def programPath (command : List UInt8) : List UInt8 := [0x2E, 0x2F] ++ command.takeWhile inWord

/-- The arguments behind the path. -/
def arguments (command : List UInt8) : List (List UInt8) :=
  wordsBehind [] ((command.dropWhile inWord).drop 1)

variable {s : Nat → UInt8} {more : UInt8 → Bool} {word rest l str : List UInt8} {rounds left scan : Nat}
  {buf : LocalArray}

theorem wordsBehind_word (rest word : List UInt8) (inside : ∀ c ∈ l, inWord c) :
    wordsBehind word (l ++ rest) = wordsBehind (word ++ l) rest := by
  induction l generalizing word with
  | nil => rw [List.nil_append, List.append_nil]
  | cons c l ih =>
    rw [List.forall_mem_cons] at inside
    have other : c ≠ space ∧ c ≠ newline := (of_decide_eq_true inside.1).2
    rw [List.cons_append, wordsBehind, if_neg other.1, if_neg other.2, ih _ inside.2, List.append_assoc,
      List.singleton_append]

theorem wordsBehind_spaces (spaces : ∀ c ∈ l, c = space) : wordsBehind [] (l ++ rest) = wordsBehind [] rest := by
  induction l with
  | nil => rfl
  | cons c l ih =>
    rw [List.forall_mem_cons] at spaces
    rw [List.cons_append, wordsBehind, if_pos spaces.1, if_pos rfl, ih spaces.2]

/-- A command without a newline is split at its spaces. -/
theorem wordsBehind_eq_splitOn (none : newline ∉ l) (word : List UInt8) :
    wordsBehind word l = ((l.splitOn space).modifyHead (word ++ ·)).filter (· ≠ []) := by
  induction l generalizing word with
  | nil => simp [wordsBehind, List.filter_cons]
  | cons c l ih =>
    rw [List.mem_cons, not_or] at none
    rw [wordsBehind, List.splitOn_cons_eq_if_modifyHead]
    by_cases blank : c = space
    · have rest : wordsBehind [] l = (l.splitOn space).filter (· ≠ []) := by
        rw [ih none.2]
        exact congrArg (List.filter _) (congrFun List.modifyHead_id (l.splitOn space))
      have head : (c == space) = true := beq_iff_eq.mpr blank
      rw [if_pos blank, if_pos head, List.modifyHead_cons, List.append_nil, List.filter_cons, rest]
      by_cases empty : word = []
      · rw [if_pos empty, if_neg (by simpa using empty)]
      · rw [if_neg empty, if_pos (by simpa using empty)]
    · rw [if_neg blank, if_neg (Ne.symm none.1), ih none.2, if_neg (by simpa using blank), List.modifyHead_modifyHead]
      congr 2
      funext rest
      exact List.append_assoc word [c] rest

/-! ## The loops -/

theorem scanWhile_eq (holds : Holds s scan l) (inside : ∀ c ∈ l, more c) (last : ¬more (s (scan + l.length)))
    (enough : l.length < rounds) : scanWhile more s rounds scan = some (scan + l.length) := by
  induction l generalizing scan rounds with
  | nil =>
    cases rounds with
    | zero => exact absurd enough (Nat.not_lt_zero _)
    | succ rounds => exact if_neg last
  | cons c l ih =>
    cases rounds with
    | zero => exact absurd enough (Nat.not_lt_zero _)
    | succ rounds =>
      have here : s scan = c := holds 0 (Nat.succ_pos _)
      have behind : Holds s (scan + 1) l := by
        rw [← List.singleton_append, holds_append] at holds
        exact holds.2
      rw [List.forall_mem_cons] at inside
      rw [List.length_cons, Nat.add_comm l.length, ← Nat.add_assoc] at last ⊢
      rw [scanWhile, here, if_pos inside.1, ih behind inside.2 last (Nat.lt_of_succ_lt_succ enough)]

/-- Where a loop stops in a string. -/
theorem scanWhile_text (more : UInt8 → Bool) (text : Text (fun k => s (scan + k)) l) (ends : more 0 = false) (enough : l.length < rounds) :
    scanWhile more s rounds scan = some (scan + (l.takeWhile more).length) ∧
      Text (fun k => s (scan + (l.takeWhile more).length + k)) (l.dropWhile more) := by
  have split : l = l.takeWhile more ++ l.dropWhile more := List.takeWhile_append_dropWhile.symm
  have rest : Text (fun k => s (scan + (l.takeWhile more).length + k)) (l.dropWhile more) := by
    rw [split] at text
    simpa only [Nat.add_assoc] using text.drop
  refine ⟨scanWhile_eq ?_ (fun c member => List.all_eq_true.mp List.all_takeWhile c member) ?_ ?_, rest⟩
  · rw [split] at text
    exact (text_append.mp text).1
  · cases behind : l.dropWhile more with
    | nil =>
      rw [behind] at rest
      have zero : s (scan + (l.takeWhile more).length) = 0 := rest
      rw [zero, ends]
      exact Bool.false_ne_true
    | cons c cs =>
      rw [behind] at rest
      have here : s (scan + (l.takeWhile more).length) = c := rest.1
      have stop := List.head?_dropWhile_not more l
      rw [behind] at stop
      rw [here]
      simpa using stop
  · exact Nat.lt_of_le_of_lt ((List.takeWhile_prefix more).length_le) enough

/-- A blank ends a word. -/
theorem wordsBehind_blank {d : UInt8} (some_word : word ≠ []) (nonzero : d ≠ 0) (blank : ¬inWord d) :
    wordsBehind word (d :: rest) = word :: wordsBehind [] rest := by
  have either : d = space ∨ d = newline := by
    by_contra neither
    rw [not_or] at neither
    exact blank (decide_eq_true ⟨nonzero, neither⟩)
  rw [wordsBehind, if_neg some_word, if_neg some_word]
  rcases either with rfl | rfl
  · rw [if_pos rfl]
  · rw [if_neg (by decide), if_pos rfl]

/-- What the loop makes of the bytes `l` from `scan` on: the words get pointers, and no byte in front of
`scan` or behind the NUL is stored to. -/
structure Parses (l : List UInt8) (scan : Nat) (buf buf' : LocalArray) (pointers : List Nat) : Prop where
  words : List.Forall₂ (fun p word => Text (fun k => buf'.bytes (p + k)) word) pointers (wordsBehind [] l)
  before : ∀ i < scan, buf'.bytes i = buf.bytes i
  nuls : ∀ i, buf.bytes i = 0 → buf'.bytes i = 0
  stores : ∀ i ∈ buf'.stores, (scan ≤ i ∧ i ≤ scan + l.length) ∨ i ∈ buf.stores
  few : 2 * pointers.length ≤ l.length + 1

theorem nuls_store (n : Nat) : ∀ i, buf.bytes i = 0 → (buf.store n 0).bytes i = 0 := by
  intro i zero
  rw [LocalArray.store_bytes, Function.update_apply, zero, ite_self]

/-- A NUL over the first byte of a string leaves the rest of it. -/
theorem text_behind_store {n : Nat} {d : UInt8} (text : Text (fun k => buf.bytes (n + k)) (d :: rest)) :
    Text (fun k => (buf.store n 0).bytes (n + 1 + k)) rest := by
  have behind : Text (fun k => buf.bytes (n + 1 + k)) rest := by
    simpa only [Nat.add_assoc, Nat.add_comm 1] using text.2.2
  have same : (fun k => (buf.store n 0).bytes (n + 1 + k)) = fun k => buf.bytes (n + 1 + k) :=
    funext fun k => Function.update_of_ne (by omega) _ _
  rw [same]
  exact behind

/-- The end of the command: a NUL is stored at a place behind some spaces. -/
theorem parses_end {n : Nat} (none : wordsBehind [] l = []) (inside : n ≤ l.length) :
    Parses l scan buf (buf.store (scan + n) 0) [] := by
  refine ⟨none ▸ .nil, fun i below => Function.update_of_ne (by omega) _ _, nuls_store _, fun i member => ?_,
    Nat.zero_le _⟩
  rcases List.mem_cons.mp member with rfl | old
  · exact .inl (by omega)
  · exact .inr old

/-- A string is at its end, or a word comes behind some spaces. -/
theorem exists_word (l : List UInt8) (nonzero : ∀ c ∈ l, c ≠ 0) :
    (wordsBehind [] l = [] ∧ ((l.dropWhile (· = space)).head?.getD 0 = 0 ∨
      (l.dropWhile (· = space)).head?.getD 0 = newline)) ∨
    ∃ word rest, l.dropWhile (· = space) = word ++ rest ∧ word ≠ [] ∧ (∀ c ∈ word, inWord c) ∧
      (∀ c, rest.head? = some c → ¬inWord c) ∧ wordsBehind [] l = wordsBehind word rest := by
  have split : l.takeWhile (· = space) ++ l.dropWhile (· = space) = l := List.takeWhile_append_dropWhile
  have skipped : wordsBehind [] l = wordsBehind [] (l.dropWhile (· = space)) := by
    conv => lhs; rw [← split]
    exact wordsBehind_spaces fun c member => of_decide_eq_true (List.all_eq_true.mp List.all_takeWhile c member)
  have head := List.head?_dropWhile_not (· = space) l
  rw [skipped]
  cases behind : l.dropWhile (· = space) with
  | nil => exact .inl ⟨rfl, .inl rfl⟩
  | cons c cs =>
    rw [behind] at head
    have other : c ≠ space := by simpa using head
    by_cases last : c = newline
    · rw [last]
      exact .inl ⟨rfl, .inr rfl⟩
    · have member : c ∈ l := by
        rw [← split, behind]
        exact List.mem_append_right _ List.mem_cons_self
      have first : inWord c = true := decide_eq_true ⟨nonzero c member, other, last⟩
      refine .inr ⟨(c :: cs).takeWhile inWord, (c :: cs).dropWhile inWord, List.takeWhile_append_dropWhile.symm, ?_,
        List.all_eq_true.mp List.all_takeWhile, ?_, ?_⟩
      · rw [List.takeWhile_cons_of_pos first]
        exact List.cons_ne_nil _ _
      · intro d stop
        have blank := List.head?_dropWhile_not inWord (c :: cs)
        rw [stop] at blank
        simpa using blank
      · have inside : ∀ d ∈ (c :: cs).takeWhile inWord, inWord d = true := List.all_eq_true.mp List.all_takeWhile
        have parts := wordsBehind_word ((c :: cs).dropWhile inWord) [] inside
        rwa [List.takeWhile_append_dropWhile, List.nil_append] at parts

/-- A word of `l` at `place`, behind nothing but spaces and in front of `rest`. -/
structure WordAt (buf : LocalArray) (scan : Nat) (l : List UInt8) (place : Nat) (word rest : List UInt8) : Prop where
  start : scan ≤ place
  lengths : place + word.length + rest.length = scan + l.length
  some_word : word ≠ []
  inside : ∀ c ∈ word, inWord c
  blank : ∀ c, rest.head? = some c → ¬inWord c
  words : wordsBehind [] l = wordsBehind word rest
  holds : Holds buf.bytes place word
  behind : Text (fun k => buf.bytes (place + word.length + k)) rest

namespace WordAt

variable {place : Nat} {d : UInt8} {buf' : LocalArray} {pointers : List Nat}

theorem nonzero (found : WordAt buf scan l place word rest) : ∀ c ∈ word, c ≠ 0 := fun c member =>
  (of_decide_eq_true (found.inside c member)).1

theorem length_pos (found : WordAt buf scan l place word rest) : 0 < word.length :=
  List.length_pos_of_ne_nil found.some_word

theorem going (found : WordAt buf scan l place word rest) : ¬(buf.bytes place = 0 ∨ buf.bytes place = newline) := by
  obtain ⟨c, cs, rfl⟩ := List.exists_cons_of_ne_nil found.some_word
  have here : buf.bytes place = c := found.holds 0 (Nat.succ_pos _)
  have first : c ≠ 0 ∧ c ≠ space ∧ c ≠ newline := of_decide_eq_true (found.inside c List.mem_cons_self)
  rw [here]
  exact not_or.mpr ⟨first.1, first.2.2⟩

/-- The loop over the word stops behind it. -/
theorem scanWhile (found : WordAt buf scan l place word rest) (enough : l.length < rounds) :
    scanWhile inWord buf.bytes rounds place = some (place + word.length) := by
  have lengths := found.lengths
  have start := found.start
  apply scanWhile_eq found.holds found.inside
  · cases rest with
    | nil =>
      have zero : buf.bytes (place + word.length) = 0 := found.behind
      rw [zero]
      decide
    | cons d rest =>
      have here : buf.bytes (place + word.length) = d := found.behind.1
      rw [here]
      exact found.blank d rfl
  · omega

/-- The last word has the NUL of the command behind it. -/
theorem parses_last (found : WordAt buf scan l place word [])
    (parses : Parses [] (place + word.length) buf buf' pointers) : Parses l scan buf buf' (place :: pointers) := by
  have start := found.start
  have positive := found.length_pos
  have lengths := found.lengths
  have few := parses.few
  rw [List.length_nil] at lengths few
  have single : wordsBehind [] l = word :: wordsBehind [] [] := found.words.trans (if_neg found.some_word)
  refine ⟨?_, fun i below => parses.before i (by omega), parses.nuls, fun i member => ?_, ?_⟩
  · rw [single]
    refine .cons (Holds.text ?_ found.nonzero (parses.nuls _ found.behind)) parses.words
    exact found.holds.keep fun i _ below => parses.before i below
  · rcases parses.stores i member with between | old
    · rw [List.length_nil] at between
      exact .inl (by omega)
    · exact .inr old
  · rw [List.length_cons]
    omega

/-- Another word gets a NUL in place of the blank behind it. -/
theorem parses_more (found : WordAt buf scan l place word (d :: rest))
    (parses : Parses rest (place + word.length + 1) (buf.store (place + word.length) 0) buf' pointers) :
    Parses l scan buf buf' (place :: pointers) := by
  have start := found.start
  have positive := found.length_pos
  have lengths := found.lengths
  have few := parses.few
  rw [List.length_cons] at lengths
  have more : wordsBehind [] l = word :: wordsBehind [] rest :=
    found.words.trans (wordsBehind_blank found.some_word found.behind.2.1 (found.blank d rfl))
  have before : ∀ i < place + word.length, buf'.bytes i = buf.bytes i := by
    intro i below
    rw [parses.before i (by omega)]
    exact Function.update_of_ne (Nat.ne_of_lt below) _ _
  refine ⟨?_, fun i below => before i (by omega), fun i zero => parses.nuls i (nuls_store _ i zero),
    fun i member => ?_, ?_⟩
  · rw [more]
    refine .cons (Holds.text ?_ found.nonzero (parses.nuls _ (Function.update_self _ _ _))) parses.words
    exact found.holds.keep fun i _ below => before i below
  · rcases parses.stores i member with between | stored
    · exact .inl (by omega)
    · rcases List.mem_cons.mp stored with rfl | old
      · exact .inl (by omega)
      · exact .inr old
  · rw [List.length_cons]
    omega

end WordAt

/-- The loop over the spaces comes to the end of the command or to a word. -/
theorem scanWhile_spaces (text : Text (fun k => buf.bytes (scan + k)) l) (enough : l.length < rounds) :
    ∃ place, scanWhile (· = space) buf.bytes rounds scan = some place ∧
      ((scan ≤ place ∧ place ≤ scan + l.length ∧ wordsBehind [] l = [] ∧
        (buf.bytes place = 0 ∨ buf.bytes place = newline)) ∨
      ∃ word rest, WordAt buf scan l place word rest) := by
  obtain ⟨skips, text₁⟩ := scanWhile_text (· = space) text (by decide) enough
  have split : l.takeWhile (· = space) ++ l.dropWhile (· = space) = l := List.takeWhile_append_dropWhile
  have lengths := congrArg List.length split
  rw [List.length_append] at lengths
  refine ⟨_, skips, ?_⟩
  rcases exists_word l (text_iff.mp text).2.1 with ⟨none, last⟩ | ⟨word, rest, parts, some_word, inside, blank, same⟩
  · refine .inl ⟨Nat.le_add_right _ _, by omega, none, ?_⟩
    cases behind : l.dropWhile (· = space) with
    | nil =>
      rw [behind] at text₁
      have zero : buf.bytes (scan + (l.takeWhile (· = space)).length) = 0 := text₁
      exact .inl zero
    | cons c cs =>
      rw [behind] at text₁ last
      have here : buf.bytes (scan + (l.takeWhile (· = space)).length) = c := text₁.1
      rw [here]
      exact last
  · rw [parts] at text₁ lengths
    rw [List.length_append] at lengths
    obtain ⟨holds, _, text₂⟩ := text_append.mp text₁
    simp only [← Nat.add_assoc] at text₂
    exact .inr ⟨word, rest, Nat.le_add_right _ _, by omega, some_word, inside, blank, same, holds, text₂⟩

/-- One round of the loop: the command is at its end, or `args` gets a pointer to the next word. -/
theorem parseArguments_round (args : List Nat) (text : Text (fun k => buf.bytes (scan + k)) l)
    (enough : l.length < rounds) (left : Nat) :
    (∃ n ≤ l.length, wordsBehind [] l = [] ∧
      parseArguments rounds (left + 1) scan ⟨buf, args⟩ = some ⟨buf.store (scan + n) 0, args⟩) ∨
    ∃ place word rest, WordAt buf scan l place word rest ∧
      parseArguments rounds (left + 1) scan ⟨buf, args⟩ =
        if buf.bytes (place + word.length) ≠ 0 then
          parseArguments rounds left (place + word.length + 1) ⟨buf.store (place + word.length) 0, args ++ [place]⟩
        else parseArguments rounds left (place + word.length) ⟨buf, args ++ [place]⟩ := by
  obtain ⟨place, skips, ⟨from_scan, inside, none, last⟩ | ⟨word, rest, found⟩⟩ := scanWhile_spaces text enough
  · left
    refine ⟨place - scan, by omega, none, ?_⟩
    rw [parseArguments, skips, Nat.add_sub_of_le from_scan]
    exact if_pos last
  · right
    refine ⟨place, word, rest, found, ?_⟩
    rw [parseArguments, skips]
    simp only [Option.bind_eq_bind, Option.bind_some]
    rw [if_neg found.going, found.scanWhile enough]
    rfl

theorem parseArguments_parses (args : List Nat) (text : Text (fun k => buf.bytes (scan + k)) l)
    (enough : l.length < rounds) (enough' : l.length < left) : ∃ buf' pointers,
      parseArguments rounds left scan ⟨buf, args⟩ = some ⟨buf', args ++ pointers⟩ ∧
        Parses l scan buf buf' pointers := by
  induction left generalizing scan l buf args with
  | zero => exact absurd enough' (Nat.not_lt_zero _)
  | succ left ih =>
    -- A round takes a byte of the command at least, so the rounds last.
    rcases parseArguments_round args text enough left with ⟨n, inside, none, result⟩ | ⟨place, word, rest, found, result⟩
    · exact ⟨_, [], by rw [result, List.append_nil], parses_end none inside⟩
    · have start := found.start
      have positive := found.length_pos
      have lengths := found.lengths
      rw [result]
      cases rest with
      | nil =>
        -- The next round finds nothing more.
        have zero : buf.bytes (place + word.length) = 0 := found.behind
        rw [List.length_nil] at lengths
        obtain ⟨buf', pointers, parsed, parses⟩ := ih (args ++ [place]) found.behind
          (by rw [List.length_nil]; omega) (by rw [List.length_nil]; omega)
        rw [if_neg (not_not.mpr zero), parsed, List.append_assoc]
        exact ⟨buf', place :: pointers, rfl, found.parses_last parses⟩
      | cons d rest =>
        have here : buf.bytes (place + word.length) = d := found.behind.1
        rw [List.length_cons] at lengths
        obtain ⟨buf', pointers, parsed, parses⟩ := ih (args ++ [place]) (text_behind_store found.behind)
          (by omega) (by omega)
        rw [if_pos (here ▸ found.behind.2.1), parsed, List.append_assoc]
        exact ⟨buf', place :: pointers, rfl, found.parses_more parses⟩

/-! ## The command -/

/-- The arguments of the program are its path and the words, and no store is outside of `buf` or `args`. -/
structure Starts (str : List UInt8) (parsed : Command) : Prop where
  argv : List.Forall₂ (fun p word => Text (fun k => parsed.buf.bytes (p + k)) word) parsed.args
    (programPath str :: arguments str)
  first : parsed.args.head? = some 0
  stores : ∀ i ∈ parsed.buf.stores, i < 1026
  pointers : parsed.args.length < 1024

/-- `buf` with the command behind `./`. -/
def dotSlash (stack : Nat → UInt8) (str : List UInt8) : LocalArray :=
  ((LocalArray.store 0 0x2E ⟨stack, []⟩).store 1 0x2F).storeList 2 (str ++ [0])

theorem dotSlash_text (stack : Nat → UInt8) (nonzero : ∀ c ∈ str, c ≠ 0) :
    Text (fun k => (dotSlash stack str).bytes (2 + k)) str := by
  have copy : Holds (dotSlash stack str).bytes 2 (str ++ [0]) := LocalArray.holds_storeList
  obtain ⟨bytes, nul⟩ := holds_append.mp copy
  exact bytes.text nonzero (nul 0 (Nat.succ_pos _))

theorem dotSlash_stores (stack : Nat → UInt8) (short : str.length ≤ 1023) :
    ∀ i ∈ (dotSlash stack str).stores, i < 1026 := by
  intro i member
  rw [dotSlash, LocalArray.mem_storeList_stores, List.length_append, List.length_singleton] at member
  rcases member with inside | early
  · omega
  · simp only [LocalArray.store_stores, List.mem_cons, List.not_mem_nil, or_false] at early
    omega

/-- The path of the program stands at the front. -/
theorem dotSlash_path (stack : Nat → UInt8) (nonzero : ∀ c ∈ str, c ≠ 0) :
    Holds (dotSlash stack str).bytes 0 (programPath str) := by
  have dots : Holds (dotSlash stack str).bytes 0 [0x2E, 0x2F] := by
    intro k inside
    have bound : k < 2 := inside
    rw [Nat.zero_add, dotSlash, LocalArray.storeList_outside (.inl bound)]
    obtain rfl | rfl : k = 0 ∨ k = 1 := by omega
    · rfl
    · rfl
  have whole := dotSlash_text stack nonzero
  conv at whole => arg 2; rw [← List.takeWhile_append_dropWhile (p := inWord) (l := str)]
  exact holds_append.mpr ⟨dots, (text_append.mp whole).1⟩

theorem programPath_nonzero (nonzero : ∀ c ∈ str, c ≠ 0) : ∀ c ∈ programPath str, c ≠ 0 := by
  intro c member
  rcases List.mem_append.mp member with dots | inside
  · simp only [List.mem_cons, List.not_mem_nil, or_false] at dots
    rcases dots with rfl | rfl
    · decide
    · decide
  · exact nonzero c ((List.takeWhile_prefix inWord).subset inside)

theorem length_programPath (str : List UInt8) :
    0 + (programPath str).length = 2 + (str.takeWhile inWord).length := by
  rw [programPath, List.length_append, Nat.zero_add]
  rfl

/-- The command is copied, and the loop stops at the end of the path. -/
theorem parseCommand_eq (text : Text s str) (enough : str.length < rounds) (stack : Nat → UInt8) :
    parseCommand rounds s stack =
      if (dotSlash stack str).bytes (2 + (str.takeWhile inWord).length) ≠ 0 then
        parseArguments rounds rounds (2 + (str.takeWhile inWord).length + 1)
          ⟨(dotSlash stack str).store (2 + (str.takeWhile inWord).length) 0, [0]⟩
      else some ⟨dotSlash stack str, [0]⟩ := by
  have copied : strcpy (fun _ => s) 2 rounds 0 ((LocalArray.store 0 0x2E ⟨stack, []⟩).store 1 0x2F) =
      some (dotSlash stack str) := strcpy_eq (fun _ _ _ => rfl) text enough
  have scans := (scanWhile_text inWord (dotSlash_text stack (text_iff.mp text).2.1) (by decide) enough).1
  rw [parseCommand, copied]
  simp only [Option.bind_eq_bind, Option.bind_some, scans]

/-- A path with nothing behind it. -/
theorem starts_alone {stack : Nat → UInt8} (nonzero : ∀ c ∈ str, c ≠ 0) (short : str.length ≤ 1023)
    (rest : str.dropWhile inWord = [])
    (zero : (dotSlash stack str).bytes (2 + (str.takeWhile inWord).length) = 0) :
    Starts str ⟨dotSlash stack str, [0]⟩ := by
  have none : arguments str = [] := by
    rw [arguments, rest]
    rfl
  refine ⟨?_, rfl, dotSlash_stores stack short, (by decide : 1 < 1024)⟩
  rw [none]
  have path := (dotSlash_path stack nonzero).text (programPath_nonzero nonzero)
  exact .cons (path (length_programPath str ▸ zero)) .nil

/-- A path with the words behind it that the loop has found. -/
theorem starts_words {stack : Nat → UInt8} {d : UInt8} {buf' : LocalArray} {pointers : List Nat}
    (nonzero : ∀ c ∈ str, c ≠ 0) (short : str.length ≤ 1023) (behind : str.dropWhile inWord = d :: rest)
    (parses : Parses rest (2 + (str.takeWhile inWord).length + 1)
      ((dotSlash stack str).store (2 + (str.takeWhile inWord).length) 0) buf' pointers) :
    Starts str ⟨buf', [0] ++ pointers⟩ := by
  have lengths := congrArg List.length (List.takeWhile_append_dropWhile (p := inWord) (l := str))
  rw [List.length_append, behind, List.length_cons] at lengths
  have ends := length_programPath str
  have few := parses.few
  have words : arguments str = wordsBehind [] rest := by
    rw [arguments, behind]
    rfl
  refine ⟨?_, rfl, fun i member => ?_, ?_⟩
  · rw [words]
    refine .cons (Holds.text ?_ (programPath_nonzero nonzero) (parses.nuls _ ?_)) parses.words
    · refine (dotSlash_path stack nonzero).keep fun i _ below => ?_
      rw [parses.before i (by omega)]
      exact Function.update_of_ne (by omega) _ _
    · rw [ends]
      exact Function.update_self _ _ _
  · rcases parses.stores i member with inside | early
    · omega
    · rcases List.mem_cons.mp early with rfl | copy
      · omega
      · exact dotSlash_stores stack short i copy
  · show ([0] ++ pointers).length < 1024
    rw [List.length_append, List.length_singleton]
    omega

theorem parseCommand_starts (text : Text s str) (short : str.length ≤ 1023) (enough : 1024 < rounds)
    (stack : Nat → UInt8) : ∃ parsed, parseCommand rounds s stack = some parsed ∧ Starts str parsed := by
  have nonzero : ∀ c ∈ str, c ≠ 0 := (text_iff.mp text).2.1
  have long : str.length < rounds := by omega
  have text₁ := (scanWhile_text inWord (dotSlash_text stack nonzero) (by decide) long).2
  rw [parseCommand_eq text long stack]
  cases rest : str.dropWhile inWord with
  | nil =>
    rw [rest] at text₁
    have zero : (dotSlash stack str).bytes (2 + (str.takeWhile inWord).length) = 0 := text₁
    rw [if_neg (not_not.mpr zero)]
    exact ⟨_, rfl, starts_alone nonzero short rest zero⟩
  | cons d words =>
    have fewer : (d :: words).length ≤ str.length := by
      rw [← rest]
      exact (List.dropWhile_sublist inWord).length_le
    rw [List.length_cons] at fewer
    rw [rest] at text₁
    have here : (dotSlash stack str).bytes (2 + (str.takeWhile inWord).length) = d := text₁.1
    obtain ⟨buf', pointers, result, parses⟩ := parseArguments_parses [0] (text_behind_store text₁)
      (Nat.lt_of_lt_of_le fewer (Nat.le_of_lt long)) (Nat.lt_of_lt_of_le fewer (Nat.le_of_lt long))
    rw [if_pos (here ▸ text₁.2.1), result]
    exact ⟨_, rfl, starts_words nonzero short rest parses⟩

theorem mapM_readText {pointers : List Nat} {words : List (List UInt8)}
    (argv : List.Forall₂ (fun p word => Text (fun k => buf.bytes (p + k)) word) pointers words)
    (enough : ∀ word ∈ words, word.length < rounds) :
    pointers.mapM (readText buf.bytes rounds) = some words := by
  induction argv with
  | nil => rfl
  | cons text _ ih =>
    rw [List.forall_mem_cons] at enough
    rw [List.mapM_cons, readText_eq text enough.1, ih enough.2]
    rfl

/-- The words, and a byte behind each of them, fit in the bytes that they are read from and one more. -/
theorem sum_length_wordsBehind (word l : List UInt8) :
    ((wordsBehind word l).map fun w => w.length + 1).sum ≤ word.length + l.length + 1 := by
  induction l generalizing word with
  | nil =>
    rw [wordsBehind]
    split
    next => exact Nat.zero_le _
    next => simp
  | cons c rest ih =>
    have later := ih []
    rw [List.length_nil] at later
    rw [wordsBehind, List.length_cons]
    split
    next =>
      split
      next => omega
      next =>
        rw [List.map_cons, List.sum_cons]
        omega
    next =>
      split
      next =>
        split
        next => exact Nat.zero_le _
        next =>
          rw [List.map_cons, List.sum_cons]
          omega
      next =>
        have longer := ih (word ++ [c])
        rw [List.length_append, List.length_singleton] at longer
        omega

theorem sum_length_arguments (command : List UInt8) :
    ((arguments command).map fun w => w.length + 1).sum ≤ command.length := by
  have words := sum_length_wordsBehind [] ((command.dropWhile inWord).drop 1)
  have part := (List.dropWhile_suffix inWord (l := command)).length_le
  rw [List.length_nil, List.length_drop] at words
  rw [arguments]
  cases rest : command.dropWhile inWord with
  | nil => exact Nat.zero_le _
  | cons c cs =>
    rw [rest, List.length_cons] at words part
    omega

/-- The value of `ece391_execute`: -1 for a command of more than 1023 bytes, and otherwise what has become of
the program that is given the words of the command. -/
theorem execute_eq (execv : List UInt8 → List (List UInt8) → Option WaitStatus) (text : Text s str)
    (stack : Nat → UInt8) (short : str.length < 2 ^ 32) (enough : str.length < rounds) (enough' : 1025 < rounds) :
    execute rounds execv s stack = some (if 1023 < str.length then -1
      else ((execv (programPath str) (programPath str :: arguments str)).getD
        (.signalled 9)).value) := by
  have long : 1023 < UInt32.ofNat str.length ↔ 1023 < str.length := by
    rw [UInt32.lt_iff_toNat_lt, UInt32.toNat_ofNat_of_lt' short]
    rfl
  rw [execute, strlen_eq text enough]
  simp only [Option.bind_eq_bind, Option.bind_some, long]
  split
  next => rfl
  next few =>
    rw [Nat.not_lt] at few
    obtain ⟨parsed, result, starts⟩ := parseCommand_starts text few (Nat.lt_of_succ_lt enough') stack
    -- Path and words are no longer than the command, so `execv` reads them to their ends.
    have words : ∀ word ∈ programPath str :: arguments str, word.length < rounds := by
      rw [List.forall_mem_cons]
      constructor
      · have part := (List.takeWhile_prefix inWord (l := str)).length_le
        rw [programPath, List.length_append]
        exact Nat.lt_of_le_of_lt (Nat.add_le_add_left (part.trans few) 2) enough'
      · intro word member
        have one := List.le_sum_of_mem (List.mem_map_of_mem (f := fun w : List UInt8 => w.length + 1) member)
        have all := sum_length_arguments str
        omega
    have argv := mapM_readText starts.argv words
    obtain ⟨pointers, split⟩ : ∃ pointers, parsed.args = 0 :: pointers := List.head?_eq_some_iff.mp starts.first
    have path : readText parsed.buf.bytes rounds 0 = some (programPath str) := by
      have texts := starts.argv
      rw [split, List.forall₂_cons] at texts
      rw [List.forall_mem_cons] at words
      exact readText_eq texts.1 words.1
    rw [result]
    simp only [Option.bind_some, path, argv]

/-- A command without a newline is taken apart at its spaces. -/
theorem words_eq_splitOn {command : List UInt8} (nonzero : ∀ c ∈ command, c ≠ 0) (none : newline ∉ command) :
    command.takeWhile inWord = (command.splitOn space).headD [] ∧
      arguments command = (command.splitOn space).tail.filter (· ≠ []) := by
  have word : ∀ c ∈ command, c ≠ space → inWord c = true := fun c member other =>
    decide_eq_true ⟨nonzero c member, other, fun same => none (same ▸ member)⟩
  by_cases blank : space ∈ command
  · obtain ⟨first, rest, rfl, unbroken⟩ := List.eq_append_cons_of_mem blank
    have inside : ∀ c ∈ first, inWord c = true := fun c member =>
      word c (List.mem_append_left _ member) fun same => unbroken (same ▸ member)
    have stop : ¬inWord space = true := by decide
    have later : newline ∉ rest := fun member => none (List.mem_append_right _ (List.mem_cons_of_mem _ member))
    have words := wordsBehind_eq_splitOn later []
    rw [List.splitOn_append_cons_self_of_not_mem unbroken, List.headD_cons, List.tail_cons, arguments,
      List.takeWhile_append_of_pos inside, List.takeWhile_cons_of_neg stop, List.append_nil,
      List.dropWhile_append_of_pos inside, List.dropWhile_cons_of_neg stop, List.drop_one, List.tail_cons, words]
    exact ⟨rfl, congrArg (List.filter _) (congrFun List.modifyHead_id (rest.splitOn space))⟩
  · have inside : ∀ c ∈ command, inWord c = true := fun c member =>
      word c member fun same => blank (same ▸ member)
    have whole : command.takeWhile inWord = command := List.takeWhile_eq_self_iff.mpr inside
    have nothing : command.dropWhile inWord = [] := List.dropWhile_eq_nil_iff.mpr inside
    rw [List.splitOn_eq_singleton blank, arguments, whole, nothing]
    exact ⟨rfl, rfl⟩

/-- `ece391_execute` starts the program with the words of the command: its path and the arguments behind it
are strings in `buf`, nothing is stored behind `buf` and `args`, and without a newline the words
are those between the spaces of the command. A longer command is not started. -/
theorem execute_starts_words (execv : List UInt8 → List (List UInt8) → Option WaitStatus) (command : CString)
    (stack : Nat → UInt8) (enough : command.bytes.length < rounds) (enough' : 1025 < rounds) :
    (1023 < command.bytes.length → execute rounds execv command.pointer stack = some (-1)) ∧
    (command.bytes.length ≤ 1023 →
      execute rounds execv command.pointer stack = some ((execv (programPath command.bytes)
        (programPath command.bytes :: arguments command.bytes)).getD (.signalled 9)).value ∧
      ∃ parsed, parseCommand rounds command.pointer stack = some parsed ∧ Starts command.bytes parsed) ∧
    (newline ∉ command.bytes →
      programPath command.bytes = [0x2E, 0x2F] ++ (command.bytes.splitOn space).headD [] ∧
      arguments command.bytes = (command.bytes.splitOn space).tail.filter (· ≠ [])) := by
  refine ⟨fun long => ?_, fun short => ⟨?_, ?_⟩, fun none => ?_⟩
  · rw [execute_eq execv command.text stack command.short enough enough', if_pos long]
  · rw [execute_eq execv command.text stack command.short enough enough', if_neg (Nat.not_lt.mpr short)]
  · exact parseCommand_starts command.text short (Nat.lt_of_succ_lt enough') stack
  · obtain ⟨first, rest⟩ := words_eq_splitOn command.nonzero none
    exact ⟨by rw [programPath, first], rest⟩

/-- `"ls  x"` -/
def lsX : CString := ⟨[0x6C, 0x73, 0x20, 0x20, 0x78], by simp, by decide⟩

theorem execute_starts_words_sample :
    (1023 < lsX.bytes.length →
      execute 1026 (fun _ argv => some (.exited (UInt8.ofNat argv.length))) lsX.pointer (fun _ => 7) = some (-1)) ∧
    (lsX.bytes.length ≤ 1023 →
      execute 1026 (fun _ argv => some (.exited (UInt8.ofNat argv.length))) lsX.pointer (fun _ => 7) =
        some ((some (WaitStatus.exited (UInt8.ofNat (programPath lsX.bytes :: arguments lsX.bytes).length))).getD
          (.signalled 9)).value ∧
      ∃ parsed, parseCommand 1026 lsX.pointer (fun _ => 7) = some parsed ∧ Starts lsX.bytes parsed) ∧
    (newline ∉ lsX.bytes →
      programPath lsX.bytes = [0x2E, 0x2F] ++ (lsX.bytes.splitOn space).headD [] ∧
      arguments lsX.bytes = (lsX.bytes.splitOn space).tail.filter (· ≠ [])) :=
  execute_starts_words (fun _ argv => some (.exited (UInt8.ofNat argv.length))) lsX (fun _ => 7) (by decide) (by decide)

end Syscalls

end Mp3Kernel
