import StackMachine.Proofs.Assembly.Findings
import StackMachine.Proofs.Files.Load
import StackMachine.Proofs.Machine.Invariant
import StackMachine.Proofs.Machine.Sessions
import StackMachine.Proofs.Program.Text

/-!
# Errors tell the phase

A program is read from text, decoded from bytes or assembled from source, and then it is run.
All of this can fail, there is one type for all the failures, and the caller who gets one wants
to know whether the program was bad or its run was. It is the kind of the error that tells.

| phase        | kinds of errors                                                          |
|--------------|--------------------------------------------------------------------------|
| `reading`    | malformed tokens                                                         |
| `decoding`   | undecodable bytes                                                        |
| `assembling` | malformed tokens, bad statements, duplicate labels, undefined labels     |
| `running`    | underflow, overflow, zero divisors, invalid pointers, the budget used up |

Two kinds of causes are met while a program is assembled and are not in the table: an unknown
mnemonic and a wrong number of operands. They are no errors by themselves; they become the
explanation of a bad statement, with their own messages. A word that is no opcode is not even
that, for a run goes on behind it.

The faults, as errors classify themselves, are those of the last row and one more, which would
have to come from a comparison that is none, and which no run raises
(`StackMachine.Error.isFault_iff`).
-/

namespace StackMachine

/-- The phases in which a program can fail. -/
inductive Phase
  | reading
  | decoding
  | assembling
  | running
  deriving DecidableEq

/-- **The kinds of errors of a phase.** -/
inductive Phase.Raises : Phase → Error → Prop
  | numeral {line column : Nat} {explanation : String} :
    Raises .reading (.malformedToken line column explanation)
  | bytes {reason : String} : Raises .decoding (.undecodable reason)
  | token {line column : Nat} {explanation : String} :
    Raises .assembling (.malformedToken line column explanation)
  | statement {line column : Nat} {explanation : String} :
    Raises .assembling (.badStatement line column explanation)
  | duplicate {line : Nat} {label : String} : Raises .assembling (.duplicateLabel line label)
  | undefined {line : Nat} {label : String} : Raises .assembling (.undefinedLabel line label)
  | underflow {ip : Nat} : Raises .running (.stackUnderflow ip)
  | overflow {ip capacity : Nat} : Raises .running (.stackOverflow ip capacity)
  | zeroDivisor {ip : Nat} : Raises .running (.divisionByZero ip)
  | pointer {target : Int} : Raises .running (.invalidPointer target)
  | budget {limit : Nat} : Raises .running (.stepLimitExceeded limit)

/-- **Causes that are no errors of any phase** by themselves. -/
inductive Error.IsCause : Error → Prop
  | opcode {word : Word} {offset : Nat} : IsCause (.unknownOpcode word offset)
  | mnemonic {name : String} : IsCause (.unknownMnemonic name)
  | count {mnemonic : String} {expected actual : Nat} :
    IsCause (.operandCount mnemonic expected actual)

namespace Error

variable {e : Error} {phase : Phase}

/-! ### The classification -/

/-- **The faults** are the errors of a run, and a comparison that is none. -/
theorem isFault_iff :
    e.isFault = true ↔
      Phase.running.Raises e ∨ ∃ opcode ip, e = .unknownComparison opcode ip := by
  constructor
  · intro h
    cases e with
    | stackUnderflow => exact Or.inl .underflow
    | stackOverflow => exact Or.inl .overflow
    | divisionByZero => exact Or.inl .zeroDivisor
    | unknownComparison opcode ip => exact Or.inr ⟨opcode, ip, rfl⟩
    | invalidPointer => exact Or.inl .pointer
    | stepLimitExceeded => exact Or.inl .budget
    | _ => cases h
  · rintro (h | ⟨opcode, ip, rfl⟩)
    · cases h <;> rfl
    · rfl

/-- An error of another phase is no fault. -/
theorem isFault_of_raises (h : phase.Raises e) (hphase : phase ≠ .running) :
    e.isFault = false := by
  cases h with
  | underflow | overflow | zeroDivisor | pointer | budget => exact absurd rfl hphase
  | _ => rfl

theorem IsCause.isFault (h : e.IsCause) : e.isFault = false := by
  cases h <;> rfl

theorem IsCause.not_raises (h : e.IsCause) (phase : Phase) : ¬phase.Raises e := by
  cases h <;> rintro ⟨⟩

/-! ### What is raised in each phase -/

theorem raises_of_ofText {source : String} (h : Program.ofText source = .error e) :
    Phase.reading.Raises e := by
  obtain ⟨_, _, _, -, -, -, rfl⟩ := Program.ofText_eq_error_iff.mp h
  exact .numeral

theorem raises_of_ofBytes {bytes : List UInt8} (h : Program.ofBytes bytes = .error e) :
    Phase.decoding.Raises e := by
  rw [Program.ofBytes] at h
  split at h
  · cases h
  · cases h
    exact .bytes

/-- What is wrong with a token of a source text is an error of assembling, whatever its role. -/
theorem raises_of_wrong {earlier : List Assembly.Site} {s : Assembly.Site}
    (h : Assembly.Wrong earlier s e) : Phase.assembling.Raises e := by
  cases h with
  | name => exact .token
  | duplicate => exact .duplicate
  | mnemonic => exact .statement
  | count => exact .statement
  | undefined => exact .undefined
  | numeral => exact .token

/-- **A source text that is refused** has a token that something is wrong with. -/
theorem exists_wrong {source : String} (h : Assembly.assemble source = .error e) :
    ∃ earlier s, Assembly.Wrong earlier s e := by
  rcases Assembly.assemble_eq_error_iff.mp h with ⟨_, _, _, -, -, hwrong⟩ |
    ⟨-, _, _, _, -, -, hwrong⟩
  · exact ⟨_, _, hwrong⟩
  · exact ⟨_, _, hwrong⟩

theorem raises_of_assemble {source : String} (h : Assembly.assemble source = .error e) :
    Phase.assembling.Raises e := by
  obtain ⟨_, _, hwrong⟩ := exists_wrong h
  exact raises_of_wrong hwrong

/-- **What a bad statement is explained by** is the message of a cause. -/
theorem exists_cause {source explanation : String} {line column : Nat}
    (h : Assembly.assemble source = .error (.badStatement line column explanation)) :
    ∃ cause : Error, cause.IsCause ∧ explanation = cause.message := by
  obtain ⟨_, _, hwrong⟩ := exists_wrong h
  cases hwrong with
  | @mnemonic _ _ t _ => exact ⟨.unknownMnemonic t.text, .mnemonic, rfl⟩
  | @count _ n _ head => exact ⟨.operandCount head.name head.arity n, .count, rfl⟩

/-- **A run that fails** has met an error of running: without room for its frame an overflow,
and otherwise what the rules for faults say. -/
theorem raises_of_run {p : Program} {c : Config} {n : Nat}
    (h : (p.run c n).result = some (.error e)) : Phase.running.Raises e := by
  rcases Nat.eq_zero_or_pos c.frameCapacity with hroom | hroom
  · have hend := (Program.ended_run_zero_iff p c).mpr hroom
    rw [Program.run_of_ended hend (Nat.zero_le n), Program.run_zero_of_no_room hroom] at h
    cases h
    exact .overflow
  · obtain ⟨_, -, -, _, _, hfault, -⟩ := Program.exists_fault hroom h
    cases hfault with
    | stepLimit => exact .budget
    | noOpcode | noImmediate | jump | jumpIf => exact .pointer
    | overflow => exact .overflow
    | noOperand | oneOperand => exact .underflow
    | zeroDivisor => exact .zeroDivisor

/-- **The kinds of errors separate the phases.** -/
structure SeparatePhases : Prop where
  reading : ∀ source e, Program.ofText source = .error e → Phase.reading.Raises e
  decoding : ∀ bytes e, Program.ofBytes bytes = .error e → Phase.decoding.Raises e
  assembling : ∀ source e, Assembly.assemble source = .error e → Phase.assembling.Raises e
  /-- A diagnostic is logged, and the error is the same. -/
  logged : ∀ journal name source e, (Assembly.assembleLogged journal name source).1 = .error e →
    Phase.assembling.Raises e
  /-- The first run, with any sink and any journal. -/
  running : ∀ p c sink journal n e,
    ((⟨.load p c, sink, journal⟩ : Session).run n).1 = some (.error e) → Phase.running.Raises e
  /-- What explains a bad statement is a cause that is no error by itself. -/
  explained : ∀ source line column explanation,
    Assembly.assemble source = .error (.badStatement line column explanation) →
      ∃ cause : Error, cause.IsCause ∧ explanation = cause.message
  /-- No phase raises such a cause. -/
  causes : ∀ e : Error, e.IsCause → ∀ phase : Phase, ¬phase.Raises e
  /-- Every error of a run is a fault. -/
  faults : ∀ e, Phase.running.Raises e → e.isFault = true
  /-- No other error is one: none of another phase, no cause, and not that of a second run. -/
  others : ∀ e : Error,
    (∃ phase : Phase, phase ≠ .running ∧ phase.Raises e) ∨ e.IsCause ∨ e = .alreadyRun →
      e.isFault = false

/-- **The kinds of errors separate the phases**, whatever is read, decoded, assembled or run. -/
theorem separatePhases : SeparatePhases where
  reading _ _ := raises_of_ofText
  decoding _ _ := raises_of_ofBytes
  assembling _ _ := raises_of_assemble
  logged journal name source e h := by
    rw [Assembly.fst_assembleLogged] at h
    exact raises_of_assemble h
  running p c sink journal n e h := by
    rw [(Session.tells_run _ n).1] at h
    exact raises_of_run h
  explained _ _ _ _ := exists_cause
  causes _ h := h.not_raises
  faults _ h := isFault_iff.mpr (Or.inl h)
  others e h := by
    rcases h with ⟨phase, hphase, h⟩ | h | rfl
    · exact isFault_of_raises h hphase
    · exact h.isFault
    · rfl

/-- A mnemonic that is misspelled surfaces as a bad statement, with the message of its cause. -/
example : Assembly.assemble "HALT\nPUHS 1" =
    .error (.badStatement 2 1 (Error.unknownMnemonic "PUHS").message) := by rfl

end Error

end StackMachine
