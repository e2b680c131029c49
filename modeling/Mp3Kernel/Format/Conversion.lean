import Mp3Kernel.Format.Itoa

/-!
# The conversions of `printf`

What a format asks for is a list of pieces, and what a piece prints is said here
without buffers: numerals, characters and strings. Each conversion of `printf`
prints what its piece does, takes its argument, and stays inside its local array.
-/

namespace Mp3Kernel

open Library

namespace Format

/-! ## Pieces -/

/-- A character, a conversion, or the start of a conversion that the format ends in. -/
inductive Piece where
  | char (c : UInt8)
  | percent
  | hexadecimal (alternate : Bool)
  | unsignedDecimal
  | signedDecimal
  | character
  | string
  | unknown
  | cut
  deriving DecidableEq, Repr

/-- The conversion with the specifier `c`. -/
def conversion (alternate : Bool) (c : UInt8) : Piece :=
  if c = percentSign then .percent
  else if c = 0x78 then .hexadecimal alternate
  else if c = 0x75 then .unsignedDecimal
  else if c = 0x64 then .signedDecimal
  else if c = 0x63 then .character
  else if c = 0x73 then .string
  else .unknown

/-- The pieces of a format. The state is `none` in the text, and inside a conversion whether there
was a `#`. -/
def parse : Option Bool → List UInt8 → List Piece
  | none, [] => []
  | some _, [] => [.cut]
  | none, c :: cs => if c = percentSign then parse (some false) cs else .char c :: parse none cs
  | some alternate, c :: cs =>
    if c = numberSign then parse (some true) cs else conversion alternate c :: parse none cs

namespace Piece

def takesArgument : Piece → Bool
  | .hexadecimal _ | .unsignedDecimal | .signedDecimal | .character | .string => true
  | _ => false

/-- What a piece prints for an argument, where `text` is the string at a pointer. -/
def render (text : UInt32 → List UInt8) (value : UInt32) : Piece → List UInt8
  | .char c => [c]
  | .percent => [percentSign]
  | .hexadecimal false => numeral 16 value.toNat
  | .hexadecimal true =>
    List.replicate (8 - (numeral 16 value.toNat).length) digitZero ++ numeral 16 value.toNat
  | .unsignedDecimal => numeral 10 value.toNat
  | .signedDecimal =>
    if value.toInt32.toInt < 0 then minus :: numeral 10 value.toInt32.toInt.natAbs
    else numeral 10 value.toInt32.toInt.natAbs
  | .character => [value.toUInt8]
  | .string => text value
  | .unknown => []
  | .cut => []

/-- The arguments that are left behind a piece. -/
def rest (piece : Piece) (args : List UInt32) : List UInt32 :=
  if piece.takesArgument then args.tail else args

end Piece

/-- What a format prints: the reference for `printf`. -/
def expand (text : UInt32 → List UInt8) : List Piece → List UInt32 → List UInt8
  | [], _ => []
  | piece :: pieces, args => piece.render text (args.headD 0) ++ expand text pieces (piece.rest args)

/-- The arguments that are printed as strings. -/
def stringArguments : List Piece → List UInt32 → List UInt32
  | [], _ => []
  | piece :: pieces, args =>
    (if piece = .string then [args.headD 0] else []) ++ stringArguments pieces (piece.rest args)

theorem length_numeral_hex_le {value : Nat} (small : value < 2 ^ 32) : (numeral 16 value).length ≤ 8 := by
  rw [numeral]
  split
  next => exact Nat.succ_le_succ (Nat.zero_le _)
  next =>
    rw [List.length_map, List.length_reverse, Nat.digits_length_le_iff (by omega)]
    exact small

/-- `%#x` always prints 8 digits. -/
theorem length_render_alternate (text : UInt32 → List UInt8) (value : UInt32) :
    ((Piece.hexadecimal true).render text value).length = 8 := by
  have length := length_numeral_hex_le value.toNat_lt
  rw [Piece.render, List.length_append, List.length_replicate]
  omega

/-! ## Arguments -/

variable {call : PrintfCall} {text : UInt32 → List UInt8} {rounds : Nat} {p p' p'' : Printf}
  {pieces : List Piece} {piece : Piece} {args : List UInt32} {esp : Nat}

/-- The arguments stand on the stack from `esp` on, are enough for the pieces, and those printed as
strings point to strings. -/
structure Supplies (call : PrintfCall) (text : UInt32 → List UInt8) (pieces : List Piece)
    (args : List UInt32) (esp : Nat) : Prop where
  stack : ∀ k (inside : k < args.length), call.stack (esp + k) = args[k]
  enough : pieces.countP Piece.takesArgument ≤ args.length
  strings : ∀ v ∈ stringArguments pieces args, Text (call.pointer v) (text v)

def Piece.taken (piece : Piece) : Nat := if piece.takesArgument then 1 else 0

theorem Supplies.argument (supplies : Supplies call text (piece :: pieces) args esp)
    (takes : piece.takesArgument = true) : call.stack esp = args.headD 0 := by
  have enough := supplies.enough
  rw [List.countP_cons, if_pos takes] at enough
  cases args with
  | nil => exact absurd enough (by simp)
  | cons v args => exact supplies.stack 0 (Nat.succ_pos _)

theorem Supplies.rest (supplies : Supplies call text (piece :: pieces) args esp) :
    Supplies call text pieces (piece.rest args) (esp + piece.taken) := by
  have enough := supplies.enough
  rw [List.countP_cons] at enough
  have strings : ∀ v ∈ stringArguments pieces (piece.rest args), Text (call.pointer v) (text v) :=
    fun v member => supplies.strings v (List.mem_append_right _ member)
  rw [Piece.rest] at strings ⊢
  rw [Piece.taken]
  split
  next takes =>
    rw [if_pos takes] at enough strings
    cases args with
    | nil => exact absurd enough (by simp)
    | cons v args =>
      refine ⟨fun k inside => ?_, Nat.le_of_succ_le_succ enough, strings⟩
      have byte := supplies.stack (k + 1) (Nat.succ_lt_succ inside)
      rw [Nat.add_assoc, Nat.add_comm 1]
      exact byte
  next keeps =>
    rw [if_neg keeps] at enough strings
    exact ⟨supplies.stack, enough, strings⟩

/-! ## One conversion -/

/-- What `printf` does on its way from `p` to `p'`: it prints `shown`, takes `taken` arguments, reads
the format between the two places only, and stores inside the local arrays only. -/
structure Progress (p p' : Printf) (shown : List UInt8) (taken : Nat) : Prop where
  out : p'.out = p.out ++ shown
  esp : p'.esp = p.esp + taken
  forward : p.buf ≤ p'.buf
  reads : ∀ i ∈ p'.reads, (p.buf ≤ i ∧ i ≤ p'.buf) ∨ i ∈ p.reads
  stores : ∀ store ∈ p'.stores, store.index < store.size ∨ store ∈ p.stores

theorem Progress.trans {shown shown' : List UInt8} {taken taken' : Nat} (first : Progress p p' shown taken)
    (second : Progress p' p'' shown' taken') : Progress p p'' (shown ++ shown') (taken + taken') := by
  have forward := first.forward
  have forward' := second.forward
  constructor
  · rw [second.out, first.out, List.append_assoc]
  · rw [second.esp, first.esp, Nat.add_assoc]
  · exact Nat.le_trans first.forward second.forward
  · intro i member
    rcases second.reads i member with between | earlier
    · exact .inl (by omega)
    · rcases first.reads i earlier with between | old
      · exact .inl (by omega)
      · exact .inr old
  · intro store member
    rcases second.stores store member with inside | earlier
    · exact .inl inside
    · exact first.stores store earlier

theorem progress_read : Progress p p.read [] 0 := by
  refine ⟨(List.append_nil _).symm, rfl, Nat.le_refl _, ?_, fun _ member => .inr member⟩
  intro i member
  rcases List.mem_cons.mp member with here | old
  · exact .inl ⟨Nat.le_of_eq here.symm, Nat.le_of_eq here⟩
  · exact .inr old

theorem progress_advance : Progress p p.advance [] 0 :=
  ⟨(List.append_nil _).symm, rfl, Nat.le_succ _, fun _ member => .inr member, fun _ member => .inr member⟩

theorem progress_print (shown : List UInt8) : Progress p { p with out := p.out ++ shown } shown 0 :=
  ⟨rfl, rfl, Nat.le_refl _, fun _ member => .inr member, fun _ member => .inr member⟩

/-- A block with a local array: it prints a string of the array, and all stores were inside. -/
theorem progress_leave (size : Nat) (convBuf : LocalArray) {shown : List UInt8}
    (inside : ∀ i ∈ convBuf.stores, i < size) :
    Progress p { ({ p with out := p.out ++ shown } : Printf).leave size convBuf with esp := p.esp + 1 }
      shown 1 := by
  refine ⟨rfl, rfl, Nat.le_refl _, fun i member => .inr member, ?_⟩
  intro store member
  rcases List.mem_append.mp member with own | old
  · obtain ⟨i, stored, rfl⟩ := List.mem_map.mp own
    exact .inl (inside i stored)
  · exact .inr old

theorem puts_eq {s : Nat → UInt8} {shown : List UInt8} (string : Text s shown)
    (enough : shown.length < rounds) :
    p.puts rounds s = some { p with out := p.out ++ shown } := by
  have whole : Text (fun k => s (0 + k)) shown := by simpa only [Nat.zero_add] using string
  rw [Printf.puts, readText_eq whole enough, Option.map_some]

/-- The numeral that `itoa` has written, in an array whose other part does not matter. -/
theorem numeral_text {value radix start : Nat} {before after : LocalArray} (low : 2 ≤ radix)
    (high : radix ≤ 36) (written : Written start (numeral radix value) before after) :
    Text (fun k => after.bytes (start + k)) (numeral radix value) :=
  written.text fun _ member => numeral_ne_nul low high member

/-- The block of a conversion that has `itoa` write at the start of its array, and prints the array. -/
theorem numeral_prints {radix : Int32} {r size : Nat} (same : radix.toInt = r) (low : 2 ≤ r) (high : r ≤ 36)
    (value : UInt32) (room : 32 < size) (enough : 33 ≤ rounds) :
    ∃ p', (do
        let convBuf ← itoa rounds value 0 radix ⟨call.garbage p.buf, []⟩
        let p ← p.puts rounds convBuf.bytes
        some { p.leave size convBuf with esp := p.esp + 1 }) = some p' ∧
      Progress p p' (numeral r value.toNat) 1 ∧ p'.buf = p.buf := by
  obtain ⟨convBuf, result, written⟩ := itoa_writes same low high value 0 ⟨call.garbage p.buf, []⟩ enough
  have length := length_numeral_le r low value.toNat_lt
  have string := numeral_text low high written
  simp only [Nat.zero_add] at string
  refine ⟨_, ?_, progress_leave size convBuf ?_, rfl⟩
  · simp only [result, Option.bind_eq_bind, Option.bind_some, puts_eq string (show _ < rounds by omega)]
  · intro i stored
    rcases written.stores i stored with between | none
    · omega
    · exact absurd none List.not_mem_nil

theorem hexadecimal_plain (enough : 33 ≤ rounds) :
    ∃ p', Printf.hexadecimal call rounds false p = some p' ∧
      Progress p p' ((Piece.hexadecimal false).render text (call.stack p.esp)) 1 ∧ p'.buf = p.buf :=
  numeral_prints rfl (by decide) (by decide) (call.stack p.esp) (by decide) enough

/-- The zeros in front of a string that starts at index 8. -/
theorem padZeros_apply (start : Nat) (convBuf : LocalArray) :
    (∀ i, (Printf.padZeros start convBuf).bytes i =
      if start ≤ i ∧ i < 8 then digitZero else convBuf.bytes i) ∧
    ∀ i ∈ (Printf.padZeros start convBuf).stores, i < 8 ∨ i ∈ convBuf.stores := by
  have rounds (n : Nat) (bound : n ≤ 8 - start) :
      (∀ i, (forLoop (fun k => LocalArray.store (start + k) digitZero) n convBuf).bytes i =
        if start ≤ i ∧ i < start + n then digitZero else convBuf.bytes i) ∧
      ∀ i ∈ (forLoop (fun k => LocalArray.store (start + k) digitZero) n convBuf).stores,
        i < 8 ∨ i ∈ convBuf.stores := by
    induction n with
    | zero =>
      refine ⟨fun i => ?_, fun i member => .inr member⟩
      rw [if_neg (by omega)]
      rfl
    | succ n ih =>
      obtain ⟨bytes, stores⟩ := ih (by omega)
      constructor
      · intro i
        rw [forLoop_succ, LocalArray.store_bytes, Function.update_apply, bytes]
        by_cases last : i = start + n
        · rw [if_pos last, if_pos (by omega)]
        · rw [if_neg last]
          congr 1
          exact propext ⟨fun _ => by omega, fun _ => by omega⟩
      · intro i member
        rw [forLoop_succ, LocalArray.store_stores, List.mem_cons] at member
        rcases member with last | before
        · exact .inl (by omega)
        · exact stores i before
  obtain ⟨bytes, stores⟩ := rounds (8 - start) (Nat.le_refl _)
  refine ⟨fun i => ?_, stores⟩
  rw [Printf.padZeros, bytes]
  congr 1
  exact propext ⟨fun _ => by omega, fun _ => by omega⟩

/-- The padded string: as many zeros as are missing to 8 digits, and the digits behind them. -/
theorem padded_text {digits : List UInt8} {before after : LocalArray} (written : Written 8 digits before after)
    (nonzero : ∀ c ∈ digits, c ≠ 0) (short : digits.length ≤ 8) :
    Text (fun k => (Printf.padZeros digits.length after).bytes (digits.length + k))
      (List.replicate (8 - digits.length) digitZero ++ digits) := by
  obtain ⟨bytes, _⟩ := padZeros_apply digits.length after
  rw [text_iff]
  refine ⟨?_, ?_, ?_⟩
  · intro k inside
    rw [List.length_append, List.length_replicate] at inside
    rw [bytes]
    by_cases padding : k < 8 - digits.length
    · rw [if_pos (by omega), List.getElem_append_left (by rw [List.length_replicate]; exact padding),
        List.getElem_replicate]
    · have digit := written.inside (k - (8 - digits.length)) (by omega)
      rw [show 8 + (k - (8 - digits.length)) = digits.length + k by omega] at digit
      rw [if_neg (by omega), digit, List.getElem_append_right (by rw [List.length_replicate]; omega)]
      simp only [List.length_replicate]
  · intro c member
    rcases List.mem_append.mp member with padding | digit
    · rw [List.eq_of_mem_replicate padding]
      decide
    · exact nonzero c digit
  · rw [List.length_append, List.length_replicate, bytes, if_neg (by omega),
      show digits.length + (8 - digits.length + digits.length) = 8 + digits.length by omega]
    exact written.nul

theorem hexadecimal_padded (enough : 33 ≤ rounds) :
    ∃ p', Printf.hexadecimal call rounds true p = some p' ∧
      Progress p p' ((Piece.hexadecimal true).render text (call.stack p.esp)) 1 ∧ p'.buf = p.buf := by
  obtain ⟨convBuf, result, written⟩ := @itoa_writes rounds 16 16 rfl (by decide) (by decide)
    (call.stack p.esp) 8 ⟨call.garbage p.buf, []⟩ enough
  have short := length_numeral_hex_le (call.stack p.esp).toNat_lt
  have string := numeral_text (by decide) (by decide) written
  have length : strlen rounds (fun k => convBuf.bytes (8 + k)) =
      some (numeral 16 (call.stack p.esp).toNat).length := by
    have whole : Text (fun k => convBuf.bytes (8 + (0 + k))) (numeral 16 (call.stack p.esp).toNat) := by
      simpa only [Nat.zero_add] using string
    have found := findNul_eq (s := fun k => convBuf.bytes (8 + k)) whole (show _ < rounds by omega)
    rw [Nat.zero_add] at found
    exact found
  have padded := padded_text written (fun _ member => numeral_ne_nul (by decide) (by decide) member) short
  have total := length_render_alternate text (call.stack p.esp)
  refine ⟨_, ?_, progress_leave 64 (Printf.padZeros (numeral 16 (call.stack p.esp).toNat).length convBuf) ?_,
    rfl⟩
  · rw [Printf.hexadecimal]
    simp only [Bool.true_eq_false, if_false, result, length, Option.bind_eq_bind, Option.bind_some,
      puts_eq padded (show _ < rounds by rw [Piece.render] at total; omega)]
    rfl
  · intro i stored
    rcases (padZeros_apply _ convBuf).2 i stored with padding | before
    · omega
    · rcases written.stores i before with between | none
      · omega
      · exact absurd none List.not_mem_nil

theorem unsignedDecimal_prints (enough : 33 ≤ rounds) :
    ∃ p', Printf.unsignedDecimal call rounds p = some p' ∧
      Progress p p' (Piece.unsignedDecimal.render text (call.stack p.esp)) 1 ∧ p'.buf = p.buf :=
  numeral_prints rfl (by decide) (by decide) (call.stack p.esp) (by decide) enough

/-- The negation of a negative number is its absolute value, for -2^31 too. -/
theorem toNat_neg {value : Int32} (negative : value.toInt < 0) :
    (-value).toUInt32.toNat = value.toInt.natAbs := by
  have lower : -2 ^ 31 ≤ value.toInt := value.le_toInt
  have unsigned := toNat_toUInt32 (-value)
  rw [Int32.toInt_neg, Int.bmod_def] at unsigned
  omega

theorem signedDecimal_prints (enough : 34 ≤ rounds) :
    ∃ p', Printf.signedDecimal call rounds p = some p' ∧
      Progress p p' (Piece.signedDecimal.render text (call.stack p.esp)) 1 ∧ p'.buf = p.buf := by
  rw [Piece.render]
  by_cases negative : (call.stack p.esp).toInt32.toInt < 0
  · have below : (call.stack p.esp).toInt32 < 0 := Int32.lt_iff_toInt_lt.mpr negative
    obtain ⟨convBuf, result, written⟩ := @itoa_writes rounds 10 10 rfl (by decide) (by decide)
      (-(call.stack p.esp).toInt32).toUInt32 1
      (LocalArray.store 0 minus ⟨call.garbage p.buf, []⟩) (Nat.le_of_succ_le enough)
    have length := length_numeral_le 10 (by decide) (-(call.stack p.esp).toInt32).toUInt32.toNat_lt
    have digits := numeral_text (by decide) (by decide) written
    -- The sign is in front of the digits, where `itoa` does not write.
    have sign : convBuf.bytes 0 = minus := by
      rw [written.outside 0 (by omega), LocalArray.store_bytes, Function.update_self]
    have string : Text convBuf.bytes (minus :: numeral 10 (-(call.stack p.esp).toInt32).toUInt32.toNat) := by
      refine ⟨sign, by decide, ?_⟩
      simpa only [Nat.add_comm 1] using digits
    rw [if_pos negative, ← toNat_neg negative]
    refine ⟨_, ?_, progress_leave 36 convBuf ?_, rfl⟩
    · rw [Printf.signedDecimal]
      simp only [if_pos below, result, Option.bind_eq_bind, Option.bind_some,
        puts_eq string (show _ < rounds by rw [List.length_cons]; omega)]
    · intro i stored
      rcases written.stores i stored with between | before
      · omega
      · rw [LocalArray.store_stores, List.mem_singleton] at before
        omega
  · have above : ¬(call.stack p.esp).toInt32 < 0 := fun below => negative (Int32.lt_iff_toInt_lt.mp below)
    -- Without a sign the conversion is that of `%u`.
    have value : (call.stack p.esp).toInt32.toUInt32.toNat = (call.stack p.esp).toInt32.toInt.natAbs := by
      have unsigned := toNat_toUInt32 (call.stack p.esp).toInt32
      have upper := (call.stack p.esp).toInt32.toInt_lt
      omega
    rw [if_neg negative, ← value, Printf.signedDecimal]
    simp only [if_neg above]
    exact numeral_prints rfl (by decide) (by decide) _ (by decide) (Nat.le_of_succ_le enough)

/-- A conversion prints what its piece does, and takes its argument. -/
theorem convert_prints {alternate : Bool} {c : UInt8} (enough : 34 ≤ rounds)
    (string : conversion alternate c = .string →
      Text (call.pointer (call.stack p.esp)) (text (call.stack p.esp)) ∧
        (text (call.stack p.esp)).length < rounds) :
    ∃ p', Printf.convert call rounds alternate c p = some p' ∧
      Progress p p' ((conversion alternate c).render text (call.stack p.esp)) (conversion alternate c).taken ∧
      p'.buf = p.buf := by
  rw [Printf.convert]
  rw [conversion] at string ⊢
  split
  next => exact ⟨_, rfl, progress_print [percentSign], rfl⟩
  next =>
    split
    next =>
      cases alternate with
      | false => exact hexadecimal_plain (by omega)
      | true => exact hexadecimal_padded (by omega)
    next =>
      split
      next => exact unsignedDecimal_prints (by omega)
      next =>
        split
        next => exact signedDecimal_prints enough
        next =>
          split
          next =>
            refine ⟨_, rfl, ?_, rfl⟩
            exact ⟨rfl, rfl, Nat.le_refl _, fun _ member => .inr member, fun _ member => .inr member⟩
          next =>
            split
            next percent hex dec int char specifier =>
              rw [if_neg percent, if_neg hex, if_neg dec, if_neg int, if_neg char, if_pos specifier] at string
              obtain ⟨terminated, short⟩ := string rfl
              refine ⟨{ p with out := p.out ++ text (call.stack p.esp), esp := p.esp + 1 }, ?_, ?_, rfl⟩
              · rw [Printf.string, puts_eq terminated short]
                rfl
              · exact ⟨rfl, rfl, Nat.le_refl _, fun _ member => .inr member, fun _ member => .inr member⟩
            next =>
              refine ⟨p, rfl, ?_, rfl⟩
              refine ⟨(List.append_nil _).symm, rfl, Nat.le_refl _, fun _ member => .inr member, ?_⟩
              exact fun _ member => .inr member

end Format

end Mp3Kernel
