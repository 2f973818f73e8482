import ServoBus.Proofs.Axis.Maps
import ServoBus.Proofs.Sync.Storage

/-!
# Layouts that are refused

Sync managers that have no place for a node reject it, and their description is incomplete from
then on. A layout can also be refused for what the options say, and nobody tells the sync managers
of that. `Layout.Marks` says for every step of a layout that only rejections leave a mark, so
whether a description can be finished after a layout was refused depends on who refused it.
-/

namespace ServoBus

/-- The sync managers have no place for a node. -/
def Fault.IsRejection : Fault → Prop
  | .syncsFull .. | .pdosFull .. | .entriesFull .. | .noCurrentSync .. | .noCurrentPdo .. => True
  | _ => False

namespace Axis.Layout

open Sync (Builder Entry)

variable {α β : Type}

/-- A step marks the description as incomplete exactly if it fails with a rejection. All its other
faults are about the options of the device. -/
structure Marks (x : Action Builder α) : Prop where
  device : ∀ b, (x.result b).2.device = b.device
  ok : ∀ {b a b'}, x.result b = (.ok a, b') → b'.failed = b.failed
  error : ∀ {b e b'}, x.result b = (.error e, b') →
    (b'.failed = true ↔ b.failed = true ∨ e.IsRejection) ∧
      (e.IsRejection ∨ ∃ reason, e = .misconfigured b.device reason)

section Step

theorem marks_pure (a : α) : Marks (pure a : Action Builder α) where
  device _ := rfl
  ok h := by
    cases h
    rfl
  error h := by cases h

theorem marks_get : Marks (get : Action Builder Builder) where
  device _ := rfl
  ok h := by
    cases h
    rfl
  error h := by cases h

theorem Marks.bind {x : Action Builder α} {f : α → Action Builder β} (hx : Marks x)
    (hf : ∀ a, Marks (f a)) : Marks (x >>= f) where
  device b := by
    have hdevice := hx.device b
    rw [Action.result_bind]
    rcases hxr : x.result b with ⟨e | a, t⟩ <;> rw [hxr] at hdevice
    · exact hdevice
    · exact ((hf a).device t).trans hdevice
  ok h := by
    obtain ⟨a, t, hxr, hfr⟩ := Action.result_bind_eq_ok_iff.1 h
    exact ((hf a).ok hfr).trans (hx.ok hxr)
  error {b e b'} h := by
    rcases Action.result_bind_eq_error_iff.1 h with h | ⟨a, t, hxr, hfr⟩
    · exact hx.error h
    · have hdevice := hx.device b
      rw [hxr] at hdevice
      obtain ⟨hmark, he⟩ := (hf a).error hfr
      rw [hx.ok hxr] at hmark
      rw [hdevice] at he
      exact ⟨hmark, he⟩

theorem marks_forM {f : β → Action Builder PUnit} (hf : ∀ x, Marks (f x)) (xs : List β) :
    Marks (xs.forM f) := by
  induction xs with
  | nil => exact marks_pure ()
  | cons x xs ih => exact (hf x).bind fun _ => ih

/-- What is refused leaves no mark. -/
theorem marks_refuse (reason : Reason) : Marks (refuse reason : Action Builder α) where
  device _ := rfl
  ok h := (result_refuse_ne_ok h).elim
  error h := by
    cases h
    exact ⟨by simp [Fault.IsRejection], .inr ⟨reason, rfl⟩⟩

/-- A node has its place, or it is rejected. -/
theorem marks_of_result {x : Action Builder Unit}
    (h : ∀ b, (∃ latest, x.result b = (.ok (), { b with latest })) ∨
      ∃ e, e.IsRejection ∧ x.result b = (.error e, { b with failed := true })) : Marks x where
  device b := by
    rcases h b with ⟨latest, h⟩ | ⟨e, -, h⟩ <;> rw [h]
  ok {b a b'} hx := by
    rcases h b with ⟨latest, h⟩ | ⟨e, -, h⟩
    · rw [h] at hx
      cases hx
      rfl
    · rw [h] at hx
      cases hx
  error {b e b'} hx := by
    rcases h b with ⟨latest, h⟩ | ⟨e, he, h⟩
    · rw [h] at hx
      cases hx
    · rw [h] at hx
      cases hx
      exact ⟨iff_of_true rfl (.inr he), .inl he⟩

theorem marks_addManager (direction : Sync.Direction) (watchdog : Sync.Watchdog) :
    Marks (Builder.addManager direction watchdog) := by
  refine marks_of_result fun b => ?_
  rw [Builder.result_addManager]
  split
  · exact .inr ⟨.syncsFull b.device Sync.managerLimit, trivial, rfl⟩
  · exact .inl ⟨_, rfl⟩

theorem marks_addPdoNode (index : UInt16) : Marks (Builder.addPdo index) := by
  refine marks_of_result fun b => ?_
  rw [Builder.result_addPdo]
  split
  · exact .inr ⟨.noCurrentSync b.device, trivial, rfl⟩
  · split
    · exact .inr ⟨.pdosFull b.device Sync.pdoLimit, trivial, rfl⟩
    · exact .inl ⟨_, rfl⟩

theorem marks_addEntry (e : Entry) : Marks (Builder.addEntry e) := by
  refine marks_of_result fun b => ?_
  rw [Builder.result_addEntry]
  split
  · exact .inr ⟨.noCurrentPdo b.device, trivial, rfl⟩
  · split
    · exact .inr ⟨.entriesFull b.device Sync.entryLimit, trivial, rfl⟩
    · exact .inl ⟨_, rfl⟩

theorem marks_addPdo (pdo : Nat) : Marks (addPdo pdo) := by
  refine marks_get.bind fun b => ?_
  split
  · exact marks_refuse _
  · exact marks_addPdoNode _

end Step

section Drive

variable {o : Options} {s : Side}

theorem marks_flowOn (first : Nat) (c : Cursor) : Marks (flowOn o s first c) := by
  unfold flowOn
  split
  · exact marks_refuse _
  · split
    · exact marks_refuse _
    · exact (marks_addPdo _).bind fun _ => marks_pure _

theorem marks_addEntries (first : Nat) (c : Cursor) (es : List Entry) :
    Marks (addEntries o s first c es) := by
  induction es generalizing c with
  | nil => exact marks_pure ()
  | cons e es ih =>
    have hgo (c : Cursor) : Marks (do
        Builder.addEntry e
        addEntries o s first { c with filled := c.filled + 1 } es) :=
      (marks_addEntry e).bind fun _ => ih _
    rw [addEntries]
    split
    · exact (marks_flowOn first c).bind hgo
    · exact (marks_pure c).bind hgo

theorem marks_firstPdo (channel : Nat) : Marks (firstPdo o s channel) := by
  dsimp only [firstPdo]
  split
  · exact marks_pure _
  · exact marks_refuse _

theorem marks_addChannel (channel : Nat) (enabled : FeatureSet) :
    Marks (addChannel o s channel enabled) := by
  refine (marks_firstPdo channel).bind fun first => ?_
  have hadd : Marks (do
      addPdo first
      addEntries o s first ⟨first, 1, 0⟩ (s.entries channel enabled)) :=
    (marks_addPdo first).bind fun _ => marks_addEntries first _ _
  split
  · exact (marks_refuse _).bind fun _ => hadd
  · exact hadd

theorem marks_addSide : Marks (addSide o s) := by
  refine (marks_addManager _ _).bind fun _ => ?_
  refine marks_forM (fun p => ?_) _
  exact marks_addChannel p.2 p.1.requested.resolve

end Drive

/-! ## Carrying on -/

/-- What a driver may do with sync managers: it adds nodes one by one, or all of a direction. -/
inductive Step where
  | call (c : Sync.Call)
  | side (o : Options) (s : Side)
deriving DecidableEq

def Step.perform : Step → Builder → Except Fault Unit × Builder
  | call c, b => Builder.perform c b
  | side o s, b => (addSide o s).result b

/-- Carries out steps one after the other, whatever they answer. -/
def run : List Step → Builder → List (Except Fault Unit) × Builder
  | [], b => ([], b)
  | step :: steps, b =>
    ((step.perform b).1 :: (run steps (step.perform b).2).1, (run steps (step.perform b).2).2)

/-- A step was answered with a rejection. -/
def AnyRejected (answers : List (Except Fault Unit)) : Prop :=
  ∃ e : Fault, .error e ∈ answers ∧ e.IsRejection

theorem not_anyRejected_nil : ¬ AnyRejected [] := by
  rintro ⟨e, he, -⟩
  exact absurd he List.not_mem_nil

theorem anyRejected_cons_iff {answer : Except Fault Unit} {answers : List (Except Fault Unit)} :
    AnyRejected (answer :: answers) ↔
      (∃ e : Fault, answer = .error e ∧ e.IsRejection) ∨ AnyRejected answers := by
  simp only [AnyRejected, List.mem_cons, or_and_right, exists_or, eq_comm]

theorem Step.exists_marks {step : Step} (hstep : step ≠ .call .begin) :
    ∃ x : Action Builder Unit, Marks x ∧ step.perform = x.result := by
  cases step with
  | side o s => exact ⟨addSide o s, marks_addSide, rfl⟩
  | call c =>
    cases c with
    | begin => exact absurd rfl hstep
    | manager direction watchdog =>
      exact ⟨Builder.addManager direction watchdog, marks_addManager direction watchdog, rfl⟩
    | pdo index => exact ⟨Builder.addPdo index, marks_addPdoNode index, rfl⟩
    | entry e => exact ⟨Builder.addEntry e, marks_addEntry e, rfl⟩

/-- What a step leaves behind tells whether it was rejected. -/
theorem Step.failed_perform {step : Step} (hstep : step ≠ .call .begin) (b : Builder) :
    (step.perform b).2.failed = true ↔
      b.failed = true ∨ ∃ e : Fault, (step.perform b).1 = .error e ∧ e.IsRejection := by
  obtain ⟨x, hx, hperform⟩ := exists_marks hstep
  rw [hperform]
  rcases h : x.result b with ⟨e | u, b'⟩
  · rw [(hx.error h).1]
    simp
  · rw [hx.ok h]
    simp

theorem Step.device_perform {step : Step} (hstep : step ≠ .call .begin) (b : Builder) :
    (step.perform b).2.device = b.device := by
  obtain ⟨x, hx, hperform⟩ := exists_marks hstep
  rw [hperform]
  exact hx.device b

/-- Until the sync managers are started anew, what steps leave behind tells whether one of them was
rejected. -/
theorem failed_run {steps : List Step} (hsteps : ∀ step ∈ steps, step ≠ .call .begin)
    (b : Builder) :
    (run steps b).2.device = b.device ∧
      ((run steps b).2.failed = true ↔ b.failed = true ∨ AnyRejected (run steps b).1) := by
  induction steps generalizing b with
  | nil => exact ⟨rfl, (or_iff_left not_anyRejected_nil).symm⟩
  | cons step steps ih =>
    obtain ⟨hstep, hsteps⟩ := List.forall_mem_cons.1 hsteps
    obtain ⟨hdevice, hfailed⟩ := ih hsteps (step.perform b).2
    rw [run]
    refine ⟨hdevice.trans (step.device_perform hstep b), ?_⟩
    rw [hfailed, step.failed_perform hstep, anyRejected_cons_iff, or_assoc]

/-- A direction that could not be added keeps the sync managers from being finished until they are
started anew if they have rejected it themselves, or anything else before or since. A direction
that only its options forbid does not. -/
theorem finish_after_failed_side {o : Options} {s : Side} {b b' : Builder} {e : Fault}
    (h : (addSide o s).result b = (.error e, b')) {steps : List Step}
    (hsteps : ∀ step ∈ steps, step ≠ .call .begin) :
    (e.IsRejection ∨ ∃ reason, e = .misconfigured b.device reason) ∧
      (b.failed = true ∨ e.IsRejection ∨ AnyRejected (run steps b').1 →
        (run steps b').2.finish.outcome = .error (.incompleteSyncs b.device)) ∧
      (¬ (b.failed = true ∨ e.IsRejection ∨ AnyRejected (run steps b').1) →
        (run steps b').2.finish.outcome =
          .ok ((run steps b').2.managers ++ [.terminator])) := by
  obtain ⟨hmark, he⟩ := marks_addSide.error h
  obtain ⟨hdevice, hfailed⟩ := failed_run hsteps b'
  have hstart : b'.device = b.device := by
    have hstart := (marks_addSide (o := o) (s := s)).device b
    rwa [h] at hstart
  rw [hmark, or_assoc] at hfailed
  rw [Builder.outcome_finish, ← hfailed, hdevice, hstart]
  exact ⟨he, fun hf => if_pos hf, fun hf => if_neg hf⟩

/-- A drive whose channel has more to say than one PDO may hold. -/
def narrow : Options := { channels := 1, pdoEntryLimit := 1 }

/-- Sync managers with those of the mailbox. -/
def mailbox : Builder := (addMailbox.result { device := "m0.a" }).2

/-- The output direction of the narrow drive, as far as it could be added. -/
def cutShort : Builder := ((addSide narrow .output).result mailbox).2

theorem finish_after_failed_side_narrow :
    (addSide narrow .output).result mailbox =
        (.error (.misconfigured "m0.a" (.fullPdo 0x1600 1)), cutShort) ∧
      (∀ step ∈ [Step.side narrow .input], step ≠ .call .begin) ∧
      (run [.side narrow .input] cutShort).2.finish.outcome =
        .ok ((run [.side narrow .input] cutShort).2.managers ++ [.terminator]) := by
  have h : (addSide narrow .output).result mailbox =
      (.error (.misconfigured "m0.a" (.fullPdo 0x1600 1)), cutShort) := by rfl
  have hsteps : ∀ step ∈ [Step.side narrow .input], step ≠ .call .begin := by decide
  have hanswers : (run [.side narrow .input] cutShort).1 =
      [.error (.misconfigured "m0.a" (.fullPdo 0x1a00 1))] := by decide +kernel
  refine ⟨h, hsteps, (finish_after_failed_side h hsteps).2.2 ?_⟩
  rw [hanswers]
  rintro (hfailed | he | ⟨e, he, hrejected⟩)
  · exact absurd hfailed (by decide)
  · exact he
  · cases List.mem_singleton.1 he
    exact hrejected

/-- A direction that was cut short is handed over without its other entries. -/
theorem finish_cutShort :
    ((addSide narrow .output).result mailbox).1 =
        .error (.misconfigured "m0.a" (.fullPdo 0x1600 1)) ∧
      cutShort.finish.outcome =
        .ok [⟨0, .output, .default, []⟩, ⟨1, .input, .default, []⟩,
          ⟨2, .output, .default, [⟨0x1600, [⟨⟨0x6040, 0⟩, 16⟩]⟩]⟩, .terminator] := by
  decide +kernel

end Axis.Layout

end ServoBus
