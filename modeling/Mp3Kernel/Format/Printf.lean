import Mp3Kernel.Format.Conversion

/-!
# `printf` against the pieces of its format

The loop goes over one piece of the format in each round, so what it prints is what
the pieces print one behind the other. When the format ends inside a conversion,
the pointer is moved past the NUL without a test, and the loop reads what is behind
the format.
-/

namespace Mp3Kernel

open Library

namespace Format

variable {call : PrintfCall} {text : UInt32 → List UInt8} {rounds gotos left : Nat} {p p' : Printf}
  {pieces : List Piece} {piece : Piece} {args : List UInt32} {alternate : Bool} {c : UInt8} {rest cs : List UInt8}

/-! ## The format in front of the pointer -/

/-- `buf` points to the rest of the format. -/
def Ahead (call : PrintfCall) (p : Printf) (rest : List UInt8) : Prop :=
  Text (fun k => call.format (p.buf + k)) rest

theorem Ahead.head (ahead : Ahead call p (c :: cs)) : call.format p.buf = c ∧ c ≠ 0 :=
  ⟨ahead.1, ahead.2.1⟩

theorem Ahead.tail (ahead : Ahead call p (c :: cs)) (moved : p'.buf = p.buf + 1) : Ahead call p' cs := by
  have behind := ahead.2.2
  rw [Ahead, moved]
  simpa only [Nat.add_assoc, Nat.add_comm 1] using behind

theorem Ahead.nul (ahead : Ahead call p []) : call.format p.buf = 0 := ahead

theorem Piece.render_of_keeps {v w : UInt32} (keeps : piece.takesArgument = false) :
    piece.render text v = piece.render text w := by
  cases piece <;> first | rfl | exact Bool.noConfusion keeps

/-- A piece prints the same for the word at `esp` as for the first of the arguments. -/
theorem Supplies.render_eq (supplies : Supplies call text (piece :: pieces) args p.esp) :
    piece.render text (call.stack p.esp) = piece.render text (args.headD 0) := by
  cases takes : piece.takesArgument with
  | true => rw [supplies.argument takes]
  | false => exact Piece.render_of_keeps takes

/-! ## One round -/

/-- The switch behind a `%` goes over the `#`s and prints one piece. -/
theorem formatCharSwitch_prints (ahead : Ahead call p rest) (complete : .cut ∉ parse (some alternate) rest)
    (supplies : Supplies call text (parse (some alternate) rest) args p.esp)
    (short : ∀ v ∈ stringArguments (parse (some alternate) rest) args, (text v).length < rounds)
    (enough : 34 ≤ rounds) (room : rest.length ≤ gotos) :
    ∃ p' piece behind, Printf.formatCharSwitch call rounds gotos alternate p = some p' ∧
      parse (some alternate) rest = piece :: parse none behind ∧
      Progress p p' (piece.render text (args.headD 0)) piece.taken ∧
      Ahead call p'.advance behind ∧ p'.advance.buf + behind.length = p.buf + rest.length := by
  induction rest generalizing p alternate gotos with
  | nil => exact absurd (List.mem_singleton.mpr rfl) complete
  | cons c cs ih =>
    obtain ⟨gotos, rfl⟩ : ∃ n, gotos = n + 1 := Nat.exists_eq_add_of_le' (Nat.le_trans (Nat.succ_pos _) room)
    rw [Printf.formatCharSwitch, ahead.head.1]
    by_cases again : c = numberSign
    · simp only [parse, if_pos again] at complete supplies short ⊢
      obtain ⟨p', piece, behind, result, pieces, progress, next, length⟩ :=
        ih (p := p.read.advance) (ahead.tail rfl) complete supplies short (Nat.le_of_succ_le_succ room)
      refine ⟨p', piece, behind, result, pieces, ?_, next, ?_⟩
      · simpa using (progress_read.trans progress_advance).trans progress
      · exact length.trans (Nat.succ_add_eq_add_succ _ _)
    · simp only [parse, if_neg again] at complete supplies short ⊢
      have string (specifier : conversion alternate c = .string) :
          Text (call.pointer (call.stack p.esp)) (text (call.stack p.esp)) ∧
            (text (call.stack p.esp)).length < rounds := by
        have member : args.headD 0 ∈ stringArguments (conversion alternate c :: parse none cs) args := by
          rw [stringArguments, if_pos specifier]
          exact List.mem_append_left _ (List.mem_singleton.mpr rfl)
        rw [supplies.argument (specifier ▸ rfl)]
        exact ⟨supplies.strings _ member, short _ member⟩
      obtain ⟨p', result, progress, same⟩ := convert_prints (p := p.read) enough string
      refine ⟨p', _, cs, result, rfl, ?_, ahead.tail (congrArg Nat.succ same), ?_⟩
      · have argument : (conversion alternate c).render text (call.stack p.read.esp) = _ := supplies.render_eq
        rw [argument] at progress
        simpa using progress_read.trans progress
      · rw [Printf.advance_buf, same]
        exact Nat.succ_add_eq_add_succ _ _

/-- The loop prints the pieces of what is left of the format, and stops at the NUL. -/
theorem loop_prints (ahead : Ahead call p rest) (complete : .cut ∉ parse none rest)
    (supplies : Supplies call text (parse none rest) args p.esp)
    (short : ∀ v ∈ stringArguments (parse none rest) args, (text v).length < rounds)
    (enough : 34 ≤ rounds) (room : rest.length ≤ rounds) (more : rest.length < left) :
    ∃ p', Printf.loop call rounds left p = some p' ∧
      Progress p p' (expand text (parse none rest) args) ((parse none rest).countP Piece.takesArgument) ∧
      p'.buf = p.buf + rest.length := by
  induction left generalizing p rest args with
  | zero => exact absurd more (Nat.not_lt_zero _)
  | succ left ih =>
    rw [Printf.loop]
    cases rest with
    | nil => exact ⟨p.read, if_pos ahead.nul, progress_read, rfl⟩
    | cons c cs =>
      rw [List.length_cons] at room more
      rw [ahead.head.1]
      simp only [if_neg ahead.head.2]
      by_cases percent : c = percentSign
      · rw [parse, if_pos percent] at complete supplies short ⊢
        simp only [if_pos percent]
        -- A conversion takes its characters off the format, and the loop goes on behind them.
        obtain ⟨p₁, piece, behind, result, pieces, progress, next, length⟩ :=
          formatCharSwitch_prints (p := p.read.advance) (ahead.tail rfl) complete supplies short enough
            (Nat.le_of_succ_le room)
        rw [pieces] at complete supplies short ⊢
        have first : Progress p p₁.advance (piece.render text (args.headD 0)) piece.taken := by
          simpa using ((progress_read.trans progress_advance).trans progress).trans progress_advance
        have position : p₁.advance.buf + behind.length = p.buf + (cs.length + 1) :=
          length.trans (Nat.succ_add_eq_add_succ _ _)
        have forward : p.buf + 1 < p₁.advance.buf := Nat.lt_succ_of_le progress.forward
        obtain ⟨p', finished, others, stop⟩ := ih next (fun member => complete (List.mem_cons_of_mem _ member))
          (first.esp ▸ supplies.rest) (fun v member => short v (List.mem_append_right _ member)) (by omega)
          (by omega)
        refine ⟨p', ?_, ?_, stop.trans position⟩
        · rw [result]
          exact finished
        · rw [expand, List.countP_cons, Nat.add_comm]
          exact first.trans others
      · rw [parse, if_neg percent] at complete supplies short ⊢
        simp only [if_neg percent]
        have first : Progress p (p.read.putc c).advance [c] 0 := by
          simpa [Printf.putc] using (progress_read.trans (progress_print [c])).trans progress_advance
        obtain ⟨p', finished, others, stop⟩ := ih (p := (p.read.putc c).advance) (ahead.tail rfl)
          (fun member => complete (List.mem_cons_of_mem _ member)) supplies.rest
          (fun v member => short v (List.mem_append_right _ member)) (Nat.le_of_succ_le room)
          (Nat.lt_of_succ_lt_succ more)
        refine ⟨p', finished, ?_, stop.trans (Nat.succ_add_eq_add_succ _ _)⟩
        rw [expand, List.countP_cons, Nat.add_comm]
        exact first.trans others

/-- All of `printf`, for a format that does not end inside a conversion. -/
theorem printf_prints {fmt : List UInt8} (format : Text call.format fmt) (complete : .cut ∉ parse none fmt)
    (supplies : Supplies call text (parse none fmt) args 0) :
    ∃ bound, ∀ rounds ≥ bound, ∃ p, printf call rounds = some (Int32.ofNat fmt.length, p) ∧
      Progress .start p (expand text (parse none fmt) args) ((parse none fmt).countP Piece.takesArgument) ∧
      p.buf = fmt.length := by
  refine ⟨35 + fmt.length + ((stringArguments (parse none fmt) args).map fun v => (text v).length).sum, ?_⟩
  intro rounds enough
  have ahead : Ahead call .start fmt := by
    simpa only [Ahead, Printf.start, Nat.zero_add] using format
  have short : ∀ v ∈ stringArguments (parse none fmt) args, (text v).length < rounds := by
    intro v member
    have part := List.le_sum_of_mem (List.mem_map_of_mem (f := fun v => (text v).length) member)
    omega
  obtain ⟨p, result, progress, stop⟩ := loop_prints ahead complete supplies short (by omega) (by omega)
    (show fmt.length < rounds by omega)
  have stop : p.buf = fmt.length := stop.trans (Nat.zero_add _)
  refine ⟨p, ?_, ?_, stop⟩
  · rw [printf, result, Option.map_some, stop]
  · exact progress

/-- `printf` prints the expansion of its format, takes an argument for each conversion that has one,
returns the length of the format, and stores inside its local arrays only. -/
theorem printf_expands (call : PrintfCall) (text : UInt32 → List UInt8) (args : List UInt32) (fmt : List UInt8)
    (format : Text call.format fmt) (complete : .cut ∉ parse none fmt)
    (supplies : Supplies call text (parse none fmt) args 0) :
    ∃ bound, ∀ rounds ≥ bound, ∃ value p, printf call rounds = some (value, p) ∧
      p.out = expand text (parse none fmt) args ∧ p.esp = (parse none fmt).countP Piece.takesArgument ∧
      value = Int32.ofNat fmt.length ∧ (fmt.length < 2 ^ 31 → value.toInt = fmt.length) ∧
      ∀ store ∈ p.stores, store.index < store.size := by
  obtain ⟨bound, prints⟩ := printf_prints format complete supplies
  refine ⟨bound, fun rounds enough => ?_⟩
  obtain ⟨p, result, progress, _⟩ := prints rounds enough
  refine ⟨_, p, result, progress.out, ?_, rfl, Int32.toInt_ofNat_of_lt, ?_⟩
  · exact progress.esp.trans (Nat.zero_add _)
  · intro store member
    exact (progress.stores store member).resolve_right List.not_mem_nil

/-- `printf(fmt, …)` with the words of `args` above the format and nothing at their addresses. -/
def callOf (fmt : List UInt8) (args : List UInt32) : PrintfCall :=
  ⟨fun i => fmt.getD i 0, fun i => args.getD i 0, fun _ => 0, fun _ _ => 0⟩

/-- `printf("%d%#x%q%%", -2147483648, 0xBEEF)` -/
theorem printf_expands_sample :
    ∃ bound, ∀ rounds ≥ bound, ∃ value p,
      printf (callOf [0x25, 0x64, 0x25, 0x23, 0x78, 0x25, 0x71, 0x25, 0x25] [0x80000000, 0xBEEF]) rounds =
        some (value, p) ∧
      p.out = [0x2D, 0x32, 0x31, 0x34, 0x37, 0x34, 0x38, 0x33, 0x36, 0x34, 0x38] ++
        [0x30, 0x30, 0x30, 0x30, 0x42, 0x45, 0x45, 0x46] ++ [0x25] ∧
      p.esp = 2 ∧ value = 9 ∧ ∀ store ∈ p.stores, store.index < store.size := by
  obtain ⟨bound, prints⟩ := printf_expands
    (callOf [0x25, 0x64, 0x25, 0x23, 0x78, 0x25, 0x71, 0x25, 0x25] [0x80000000, 0xBEEF]) (fun _ => [])
    [0x80000000, 0xBEEF] [0x25, 0x64, 0x25, 0x23, 0x78, 0x25, 0x71, 0x25, 0x25]
    (by simp [Text, callOf]) (by decide)
    ⟨by simp +contextual [callOf], by decide, List.forall_mem_nil _⟩
  refine ⟨bound, fun rounds enough => ?_⟩
  obtain ⟨value, p, result, out, esp, returned, _, stores⟩ := prints rounds enough
  refine ⟨value, p, result, out.trans ?_, esp, returned, stores⟩
  decide +kernel

/-! ## Reads behind the format -/

/-- `printf` comes to its end, and reads no byte behind the NUL of a format of `length` bytes. -/
def StaysInside (call : PrintfCall) (length : Nat) : Prop :=
  ∃ bound, ∀ rounds ≥ bound, ∃ value p, printf call rounds = some (value, p) ∧
    (∀ i ∈ p.reads, i ≤ length) ∧ p.buf = length

theorem puts_keeps {s : Nat → UInt8} (done : p.puts rounds s = some p') :
    p'.buf = p.buf ∧ p'.reads = p.reads := by
  rw [Printf.puts, Option.map_eq_some_iff] at done
  obtain ⟨_, _, rfl⟩ := done
  exact ⟨rfl, rfl⟩

theorem hexadecimal_keeps (done : Printf.hexadecimal call rounds alternate p = some p') :
    p'.buf = p.buf ∧ p'.reads = p.reads := by
  rw [Printf.hexadecimal] at done
  split at done
  next =>
    simp only [Option.bind_eq_bind, Option.bind_eq_some_iff, Option.some.injEq] at done
    obtain ⟨_, _, _, shown, rfl⟩ := done
    have kept := puts_keeps shown
    exact kept
  next =>
    simp only [Option.bind_eq_bind, Option.bind_eq_some_iff, Option.some.injEq] at done
    obtain ⟨_, _, _, _, _, shown, rfl⟩ := done
    have kept := puts_keeps shown
    exact kept

theorem unsignedDecimal_keeps (done : Printf.unsignedDecimal call rounds p = some p') :
    p'.buf = p.buf ∧ p'.reads = p.reads := by
  simp only [Printf.unsignedDecimal, Option.bind_eq_bind, Option.bind_eq_some_iff, Option.some.injEq] at done
  obtain ⟨_, _, _, shown, rfl⟩ := done
  have kept := puts_keeps shown
  exact kept

theorem signedDecimal_keeps (done : Printf.signedDecimal call rounds p = some p') :
    p'.buf = p.buf ∧ p'.reads = p.reads := by
  rw [Printf.signedDecimal] at done
  dsimp only at done
  split at done
  all_goals
    simp only [Option.bind_eq_bind, Option.bind_eq_some_iff, Option.some.injEq] at done
    obtain ⟨_, _, _, shown, rfl⟩ := done
    have kept := puts_keeps shown
    exact kept

theorem string_keeps (done : Printf.string call rounds p = some p') : p'.buf = p.buf ∧ p'.reads = p.reads := by
  simp only [Printf.string, Option.bind_eq_bind, Option.bind_eq_some_iff, Option.some.injEq] at done
  obtain ⟨_, shown, rfl⟩ := done
  have kept := puts_keeps shown
  exact kept

/-- No conversion moves the pointer or reads the format. -/
theorem convert_keeps (done : Printf.convert call rounds alternate c p = some p') :
    p'.buf = p.buf ∧ p'.reads = p.reads := by
  rw [Printf.convert] at done
  split at done
  next =>
    obtain rfl := Option.some.inj done
    exact ⟨rfl, rfl⟩
  next =>
    split at done
    next => exact hexadecimal_keeps done
    next =>
      split at done
      next => exact unsignedDecimal_keeps done
      next =>
        split at done
        next => exact signedDecimal_keeps done
        next =>
          split at done
          next =>
            obtain rfl := Option.some.inj done
            exact ⟨rfl, rfl⟩
          next =>
            split at done
            next => exact string_keeps done
            next =>
              obtain rfl := Option.some.inj done
              exact ⟨rfl, rfl⟩

theorem formatCharSwitch_reads (done : Printf.formatCharSwitch call rounds gotos alternate p = some p') :
    p.reads ⊆ p'.reads := by
  induction gotos generalizing alternate p with
  | zero => exact nomatch done
  | succ gotos ih =>
    rw [Printf.formatCharSwitch] at done
    split at done
    next => exact List.Subset.trans (List.subset_cons_self _ _) (ih done)
    next =>
      rw [(convert_keeps done).2]
      exact List.subset_cons_self _ _

theorem loop_reads (done : Printf.loop call rounds left p = some p') : p.read.reads ⊆ p'.reads := by
  induction left generalizing p with
  | zero => exact nomatch done
  | succ left ih =>
    rw [Printf.loop] at done
    split at done
    next =>
      obtain rfl := Option.some.inj done
      exact List.Subset.refl _
    next =>
      split at done
      next =>
        obtain ⟨p₁, switch, others⟩ := Option.bind_eq_some_iff.mp done
        have first : p.read.reads ⊆ p₁.reads := formatCharSwitch_reads (p := p.read.advance) switch
        exact List.Subset.trans first (List.Subset.trans (List.subset_cons_self _ _) (ih (p := p₁.advance) others))
      next => exact List.Subset.trans (List.subset_cons_self _ _) (ih (p := (p.read.putc _).advance) done)

theorem conversion_ne_cut : conversion alternate c ≠ .cut := by
  rw [conversion]
  repeat' split
  all_goals exact Piece.noConfusion

/-- In a format that ends inside a conversion, the switch stops at the NUL, or the cut is still to come. -/
theorem formatCharSwitch_cut (ahead : Ahead call p rest) (cut : .cut ∈ parse (some alternate) rest)
    (done : Printf.formatCharSwitch call rounds gotos alternate p = some p') :
    p'.buf = p.buf + rest.length ∨ ∃ behind, Ahead call p'.advance behind ∧ .cut ∈ parse none behind ∧
      p'.advance.buf + behind.length = p.buf + rest.length := by
  induction rest generalizing p alternate gotos with
  | nil =>
    cases gotos with
    | zero => exact nomatch done
    | succ gotos =>
      rw [Printf.formatCharSwitch, ahead.nul] at done
      simp only [if_neg (show (0 : UInt8) ≠ numberSign by decide)] at done
      exact .inl (convert_keeps done).1
  | cons c cs ih =>
    cases gotos with
    | zero => exact nomatch done
    | succ gotos =>
      rw [Printf.formatCharSwitch, ahead.head.1] at done
      rw [parse] at cut
      rw [show p.buf + (c :: cs).length = p.buf + 1 + cs.length from (Nat.succ_add_eq_add_succ _ _).symm]
      split at cut
      next again =>
        simp only [if_pos again] at done
        exact ih (p := p.read.advance) (ahead.tail rfl) cut done
      next other =>
        simp only [if_neg other] at done
        have same : p'.advance.buf = p.buf + 1 := congrArg Nat.succ (convert_keeps done).1
        refine .inr ⟨cs, ahead.tail same, ?_, ?_⟩
        · exact (List.mem_cons.mp cut).resolve_left conversion_ne_cut.symm
        · rw [same]

/-- Then the loop reads the byte behind the NUL. -/
theorem loop_cut (ahead : Ahead call p rest) (cut : .cut ∈ parse none rest)
    (done : Printf.loop call rounds left p = some p') : p.buf + rest.length + 1 ∈ p'.reads := by
  induction left generalizing p rest with
  | zero => exact nomatch done
  | succ left ih =>
    rw [Printf.loop] at done
    cases rest with
    | nil => exact absurd cut List.not_mem_nil
    | cons c cs =>
      rw [ahead.head.1] at done
      simp only [if_neg ahead.head.2] at done
      rw [parse] at cut
      rw [show p.buf + (c :: cs).length = p.buf + 1 + cs.length from (Nat.succ_add_eq_add_succ _ _).symm]
      split at cut
      next percent =>
        simp only [if_pos percent] at done
        obtain ⟨p₁, switch, others⟩ := Option.bind_eq_some_iff.mp done
        rcases formatCharSwitch_cut (p := p.read.advance) (ahead.tail rfl) cut switch with
          stop | ⟨behind, next, cut, length⟩
        · have position : p₁.advance.buf = p.buf + 1 + cs.length + 1 := congrArg Nat.succ stop
          rw [← position]
          exact loop_reads others List.mem_cons_self
        · have last := ih next cut others
          rw [length] at last
          exact last
      next other =>
        simp only [if_neg other] at done
        have later := (List.mem_cons.mp cut).resolve_left (by exact Piece.noConfusion)
        exact ih (p := (p.read.putc c).advance) (ahead.tail rfl) later done

/-- What every run of `printf` over such a format has read at its end. -/
theorem printf_cut {fmt : List UInt8} {value : Int32} (format : Text call.format fmt) (cut : .cut ∈ parse none fmt)
    (done : printf call rounds = some (value, p)) : fmt.length + 1 ∈ p.reads := by
  rw [printf, Option.map_eq_some_iff] at done
  obtain ⟨p, done, same⟩ := done
  obtain ⟨_, rfl⟩ := Prod.mk.inj same
  have ahead : Ahead call .start fmt := by
    simpa only [Ahead, Printf.start, Nat.zero_add] using format
  have behind := loop_cut ahead cut done
  rwa [show Printf.start.buf = 0 from rfl, Nat.zero_add] at behind

/-- `printf` stays inside its format exactly when the format does not end inside a conversion. -/
theorem printf_stays_inside_iff (call : PrintfCall) (text : UInt32 → List UInt8) (args : List UInt32)
    (fmt : List UInt8) (format : Text call.format fmt) (supplies : Supplies call text (parse none fmt) args 0) :
    StaysInside call fmt.length ↔ .cut ∉ parse none fmt := by
  constructor
  · rintro ⟨bound, ends⟩ cut
    obtain ⟨value, p, result, reads, _⟩ := ends bound (Nat.le_refl _)
    exact Nat.not_succ_le_self _ (reads _ (printf_cut format cut result))
  · intro complete
    obtain ⟨bound, prints⟩ := printf_prints format complete supplies
    refine ⟨bound, fun rounds enough => ?_⟩
    obtain ⟨p, result, progress, stop⟩ := prints rounds enough
    refine ⟨_, p, result, fun i member => ?_, stop⟩
    rcases progress.reads i member with between | none
    · exact stop ▸ between.2
    · exact absurd none List.not_mem_nil

/-- `printf("a%#x", 0)` -/
theorem printf_stays_inside_sample : StaysInside (callOf [0x61, 0x25, 0x23, 0x78] [0]) 4 :=
  (printf_stays_inside_iff (callOf [0x61, 0x25, 0x23, 0x78] [0]) (fun _ => []) [0] [0x61, 0x25, 0x23, 0x78]
    (by simp [Text, callOf])
    ⟨by simp [callOf], by decide, List.forall_mem_nil _⟩).mpr (by decide)

/-- `printf("%")` reads the byte behind the NUL, index 2. -/
theorem printf_leaves_format :
    Text (callOf [percentSign] []).format [percentSign] ∧
      Supplies (callOf [percentSign] []) (fun _ => []) (parse none [percentSign]) [] 0 ∧
      (printf (callOf [percentSign] []) 4).map (fun result => result.2.reads) = some [2, 1, 0] ∧
      ¬StaysInside (callOf [percentSign] []) [percentSign].length := by
  have format : Text (callOf [percentSign] []).format [percentSign] := by
    simp [Text, callOf, percentSign]
  refine ⟨format, ⟨by simp, by decide, List.forall_mem_nil _⟩, by decide, ?_⟩
  rintro ⟨bound, ends⟩
  obtain ⟨value, p, result, reads, _⟩ := ends bound (Nat.le_refl _)
  exact Nat.not_succ_le_self _ (reads _ (printf_cut format (by decide) result))

end Format

end Mp3Kernel
