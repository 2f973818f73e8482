import ServoBus.Proofs.Bus.Trace

/-!
# Slaves that stand aside

A slave stands aside while it is inactive or was not found operational when its state was asked
for last. The input half of a cycle asks for the state of every slave, one after the other, and
a slave that stands aside keeps its pins. For the output half it might as well not be there:
without the slaves that stand aside, the same calls are made and the others end up the same.
-/

namespace ServoBus

variable {μ : Type}

namespace Slave

/-- A slave that is not operational has no part in the input half of a cycle. -/
theorem read_of_not_operational {s : Slave} (h : s.isOperational = false) (image : Bytes) :
    s.read image = s := by
  rw [← s.cyclic?_isSome, Option.isSome_eq_false_iff, Option.isNone_iff_eq_none] at h
  rw [read, h]

theorem isOperational_read (s : Slave) (image : Bytes) :
    (s.read image).isOperational = s.isOperational := by
  unfold read
  split <;> rfl

variable [Master μ]

/-- The answer of the master is all that changes when a slave asks for its state. -/
theorem updateState_eq (s : Slave) (m : μ) :
    (s.updateState m).1 = { s with state := (s.updateState m).1.state } := by
  unfold updateState
  split <;> rfl

theorem image_updateState (h : Master.Discreet μ) (s : Slave) (m : μ) :
    Master.image (s.updateState m).2 = Master.image m := by
  rw [← h s.site.position m, updateState]
  rcases Master.slaveState s.site.position m with ⟨_ | _, m'⟩ <;> rfl

end Slave

namespace Bus

/-- Slaves that are numbered from a number on, without those that have one of the numbers in
question. -/
noncomputable def without (p : Nat → Prop) (first : Nat) (slaves : List Slave) : List Slave :=
  open Classical in ((slaves.zipIdx first).filter fun x => ¬ p x.2).map (·.1)

/-- The bus without the slaves that have one of these numbers. -/
noncomputable def dropping (p : Nat → Prop) (b : Bus μ) : Bus μ :=
  { b with slaves := without p 0 b.slaves }

/-- The bus with a master that keeps its calls. -/
def traced (b : Bus μ) : Bus (Traced μ) := ⟨b.name, ⟨b.master, []⟩, b.slaves⟩

/-- The bus with the master that was traced. -/
def untraced (b : Bus (Traced μ)) : Bus μ := ⟨b.name, b.master.master, b.slaves⟩

variable [Master μ]

/-! ## Turns of the input half -/

/-- The turn of a slave in the input half of a cycle: first its state is asked for, then its
pins are set. -/
def readTurn (b : Bus μ) (n : Nat) : Bus μ :=
  match b.slaves[n]? with
  | some s =>
    let (s, m) := s.updateState b.master
    { b with slaves := b.slaves.set n (s.read (Master.image m)), master := m }
  | none => b

theorem readAll_concat (slaves : List Slave) (s : Slave) (m : μ) :
    readAll (slaves ++ [s]) m =
      ((readAll slaves m).1 ++
          [(s.updateState (readAll slaves m).2).1.read
            (Master.image (s.updateState (readAll slaves m).2).2)],
        (s.updateState (readAll slaves m).2).2) := by
  induction slaves generalizing m with
  | nil => rfl
  | cons q rest ih => simp [readAll, ih]

theorem length_readAll (slaves : List Slave) (m : μ) :
    (readAll slaves m).1.length = slaves.length := by
  induction slaves generalizing m with
  | nil => rfl
  | cons s rest ih => simp [readAll, ih]

/-- A turn at the end of those before it. -/
theorem readTurn_append (b : Bus μ) (done rest : List Slave) (s : Slave) (m : μ) :
    readTurn { b with slaves := done ++ s :: rest, master := m } done.length =
      { b with
        slaves :=
          done ++ (s.updateState m).1.read (Master.image (s.updateState m).2) :: rest
        master := (s.updateState m).2 } := by
  simp [readTurn]

/-- What the first turns make. -/
theorem foldl_readTurn (b : Bus μ) {n : Nat} (hn : n ≤ b.slaves.length) :
    (List.range n).foldl readTurn b =
      { b with
        slaves := (readAll (b.slaves.take n) b.master).1 ++ b.slaves.drop n
        master := (readAll (b.slaves.take n) b.master).2 } := by
  induction n with
  | zero => rfl
  | succ n ih =>
    have hlt : n < b.slaves.length := hn
    have hlen : (readAll (b.slaves.take n) b.master).1.length = n := by
      rw [length_readAll, List.length_take_of_le (Nat.le_of_lt hlt)]
    have hturn := readTurn_append b (readAll (b.slaves.take n) b.master).1
      (b.slaves.drop (n + 1)) b.slaves[n] (readAll (b.slaves.take n) b.master).2
    rw [hlen, ← List.drop_eq_getElem_cons hlt] at hturn
    rw [List.range_succ, List.foldl_append, ih (Nat.le_of_lt hlt), List.foldl_cons,
      List.foldl_nil, hturn, List.take_succ_eq_append_getElem hlt, readAll_concat,
      List.append_assoc, List.singleton_append]

/-- The input half of a cycle is one turn of every slave. -/
theorem read_eq_foldl (b : Bus μ) :
    b.read = (List.range b.slaves.length).foldl readTurn b := by
  rw [foldl_readTurn b (Nat.le_refl _), List.take_length, List.drop_length, List.append_nil]
  rfl

/-- Until its turn a slave is as it was. -/
theorem getElem?_foldl_readTurn {b : Bus μ} {n : Nat} {s : Slave}
    (hs : b.slaves[n]? = some s) : ((List.range n).foldl readTurn b).slaves[n]? = some s := by
  obtain ⟨hlt, hget⟩ := List.getElem?_eq_some_iff.1 hs
  rw [foldl_readTurn b (Nat.le_of_lt hlt)]
  have hlen : (readAll (b.slaves.take n) b.master).1.length = n := by
    rw [length_readAll, List.length_take_of_le (Nat.le_of_lt hlt)]
  simp only
  rw [List.getElem?_append_right (Nat.le_of_eq hlen), hlen, Nat.sub_self, List.getElem?_drop]
  exact hs

/-- What the input half makes of a slave, behind the turns of those before it. -/
theorem getElem?_readAll {slaves : List Slave} {m : μ} {n : Nat} {s : Slave}
    (hs : slaves[n]? = some s) :
    (readAll slaves m).1[n]? =
      some ((s.updateState (readAll (slaves.take n) m).2).1.read
        (Master.image (s.updateState (readAll (slaves.take n) m).2).2)) := by
  induction slaves generalizing m n with
  | nil => cases hs
  | cons q rest ih =>
    cases n with
    | zero =>
      cases hs
      rfl
    | succ n => exact ih hs

/-- Asking for states may change the process image, but setting pins does not. -/
theorem image_readAll (h : Master.Discreet μ) (slaves : List Slave) (m : μ) :
    Master.image (readAll slaves m).2 = Master.image m := by
  induction slaves generalizing m with
  | nil => rfl
  | cons s rest ih => simp only [readAll, ih, s.image_updateState h]

/-! ## Leaving out slaves -/

theorem getElem?_writeAll {slaves : List Slave} {m : μ} {n : Nat} {s : Slave}
    (hs : slaves[n]? = some s) :
    ∃ m' : μ, (writeAll slaves m).value.1[n]? = some (s.write m').value.1 := by
  induction slaves generalizing m n with
  | nil => cases hs
  | cons q rest ih =>
    simp only [writeAll, Logged.value_bind, Logged.value_pure]
    cases n with
    | zero =>
      cases hs
      exact ⟨m, rfl⟩
    | succ n => exact ih hs

theorem without_cons_of_pos {p : Nat → Prop} {first : Nat} (h : p first) (s : Slave)
    (slaves : List Slave) : without p first (s :: slaves) = without p (first + 1) slaves := by
  simp [without, h]

theorem without_cons_of_neg {p : Nat → Prop} {first : Nat} (h : ¬ p first) (s : Slave)
    (slaves : List Slave) :
    without p first (s :: slaves) = s :: without p (first + 1) slaves := by
  simp [without, h]

/-- The output half does not notice that slaves are missing which take no part in it. -/
theorem writeAll_without {p : Nat → Prop} {first : Nat} {slaves : List Slave}
    (h : ∀ n s, slaves[n]? = some s → p (first + n) → s.isOperational = false) (m : μ) :
    writeAll (without p first slaves) m =
      Prod.map (without p first) id <$> writeAll slaves m := by
  induction slaves generalizing first m with
  | nil => rfl
  | cons s rest ih =>
    have hrest : ∀ n q, rest[n]? = some q → p (first + 1 + n) → q.isOperational = false := by
      intro n q hq hp
      rw [Nat.add_assoc, Nat.add_comm 1] at hp
      exact h (n + 1) q hq hp
    by_cases hp : p first
    · rw [without_cons_of_pos hp, ih hrest, writeAll,
        Slave.write_of_not_operational (h 0 s rfl hp)]
      simp [without_cons_of_pos hp]
      rfl
    · rw [without_cons_of_neg hp, writeAll, writeAll]
      simp [ih hrest, without_cons_of_neg hp]

theorem write_dropping {p : Nat → Prop} {b : Bus μ}
    (h : ∀ n s, b.slaves[n]? = some s → p n → s.isOperational = false) :
    (b.dropping p).write = dropping p <$> b.write := by
  have hw : writeAll (without p 0 b.slaves) b.master =
      Prod.map (without p 0) id <$> writeAll b.slaves b.master :=
    writeAll_without (fun n s hs hp => h n s hs (Nat.zero_add n ▸ hp)) b.master
  simp [write, dropping, hw]

/-! ## Standing aside -/

theorem length_stateAnswers (slaves : List Slave) (m : μ) :
    (stateAnswers slaves m).length = slaves.length := by
  induction slaves generalizing m with
  | nil => rfl
  | cons s rest ih => simp [stateAnswers, ih]

namespace Session

variable {registry : Registry} {st : Session μ} {ops : List (Operation μ)} {n : Nat}

/-- The slave with this number stands aside behind a run: it is inactive, or the latest time
that its state was asked for it was not found operational, or nobody has asked for it. -/
inductive StandsAside (registry : Registry) (st : Session μ) (ops : List (Operation μ))
    (n : Nat) : Prop where
  | inactive (h : ¬ (st.run registry ops).bus.IsActive n)
  | unasked (h : ∀ before after, ops = before ++ .read :: after →
      (st.run registry before).bus.slaves.length ≤ n)
  | unanswered {before : List (Operation μ)} {e : Fault} (h : Latest .read ops before)
    (he : (stateAnswers (st.run registry before).bus.slaves
      (st.run registry before).bus.master)[n]? = some (.error e))
  | down {before : List (Operation μ)} {state : SlaveState} (h : Latest .read ops before)
    (hs : (stateAnswers (st.run registry before).bus.slaves
      (st.run registry before).bus.master)[n]? = some (.ok state))
    (ho : state.operational = false)

theorem StandsAside.not_foundLast (h : st.StandsAside registry ops n)
    (hactive : (st.run registry ops).bus.IsActive n) : ¬ st.FoundLast registry ops n := by
  rintro ⟨before, hlatest, state, hstate, ho⟩
  cases h with
  | inactive h => exact h hactive
  | unasked h =>
    obtain ⟨after, heq, -⟩ := hlatest
    have hlt := (List.getElem?_eq_some_iff.1 hstate).1
    rw [length_stateAnswers] at hlt
    exact Nat.not_lt.2 (h before after heq) hlt
  | unanswered h he =>
    rw [hlatest.unique h, hstate] at he
    cases he
  | down h hs hdown =>
    rw [hlatest.unique h, hstate] at hs
    cases hs
    rw [ho] at hdown
    cases hdown

/-- A slave that stands aside is not operational as far as the bus knows. -/
theorem StandsAside.isOperational {name : String} {m : μ}
    (h : (start name m).StandsAside registry ops n) {s : Slave}
    (hs : ((start name m).run registry ops).bus.slaves[n]? = some s) :
    s.isOperational = false := by
  rw [← Bool.not_eq_true]
  intro ho
  obtain ⟨hactive, hup⟩ := (takesPart_iff _ n).1 ⟨s, hs, ho⟩
  rcases (isUp_run_iff _ ops n).1 hup with hfound | ⟨-, state, hstate, -⟩
  · exact h.not_foundLast hactive hfound
  · cases hstate

end Session

/-- What a cycle of the bus does to the slaves that stand aside in its input half and in its
output half, and what it does without them. -/
structure Gated (b : Bus μ) (reading writing : Nat → Prop) : Prop where
  /-- In the input half every slave has its turn, in which its state is asked for before its
  pins are set. -/
  turns : b.read = (List.range b.slaves.length).foldl readTurn b
  /-- Until its turn a slave is as it was, and nobody has asked for its state. -/
  waits : ∀ (n : Nat) (s : Slave), b.slaves[n]? = some s →
    ((List.range n).foldl readTurn b.traced).slaves[n]? = some s ∧
      ((List.range n).foldl readTurn b.traced).master.calls.reverse =
        (b.slaves.take n).map fun s => .slaveState s.site.position
  /-- The calls of the input half, in their order. -/
  queries : b.traced.read.master.calls.reverse =
    b.slaves.map fun s => .slaveState s.site.position
  untraced_read : b.traced.read.untraced = b.read
  untraced_write : untraced <$> b.traced.write = b.write
  image : Master.Discreet μ → Master.image b.read.master = Master.image b.master
  keeps : ∀ (n : Nat) (s : Slave), b.slaves[n]? = some s → reading n →
    ∃ s', b.read.slaves[n]? = some s' ∧ s'.pins = s.pins ∧ s'.rig? = s.rig?
  /-- With whatever master its turn comes in the output half, it makes no call. -/
  rests : ∀ (n : Nat) (s : Slave), b.slaves[n]? = some s → writing n →
    b.write.value.slaves[n]? = some s ∧
      ∀ (ν : Type) [Master ν] (m : ν), s.write m = pure (s, m)
  /-- Requests that are polled or written belong to the other slaves. -/
  requests : ∀ call ∈ b.traced.write.value.master.calls, ∀ r, call.request? = some r →
    ∃ (n : Nat) (s : Slave), b.slaves[n]? = some s ∧ ¬ writing n ∧ r ∈ s.requests
  /-- Without them the others end up the same, with the same master and messages. -/
  drops : (b.dropping writing).write = dropping writing <$> b.write
  drops_calls : (b.dropping writing).traced.write.value.master = b.traced.write.value.master

theorem gated_of_isOperational {b : Bus μ} {reading writing : Nat → Prop}
    (hread : ∀ (n : Nat) (s : Slave), b.read.slaves[n]? = some s → reading n →
      s.isOperational = false)
    (hwrite : ∀ (n : Nat) (s : Slave), b.slaves[n]? = some s → writing n →
      s.isOperational = false) :
    b.Gated reading writing where
  turns := b.read_eq_foldl
  waits n s hs := by
    refine ⟨getElem?_foldl_readTurn hs, ?_⟩
    have hlt := (List.getElem?_eq_some_iff.1 hs).1
    rw [foldl_readTurn b.traced (Nat.le_of_lt hlt)]
    simp [calls_readAll, traced]
  queries := by
    have h := calls_readAll b.slaves (Traced.mk b.master [])
    rw [List.append_nil] at h
    rw [← List.reverse_reverse (b.slaves.map _), ← h]
    rfl
  untraced_read := by
    have h := readAll_carried Traced.carries_master b.slaves (Traced.mk b.master [])
    simp [read, untraced, traced, h]
  untraced_write := by
    have h := writeAll_carried Traced.carries_master b.slaves (Traced.mk b.master [])
    simp [write, untraced, traced, h]
  image h := image_readAll h b.slaves b.master
  keeps n s hs hn := by
    have hget := getElem?_readAll hs (m := b.master)
    have ho := hread n _ hget hn
    rw [Slave.isOperational_read] at ho
    rw [Slave.read_of_not_operational ho, Slave.updateState_eq] at hget
    exact ⟨_, hget, rfl, rfl⟩
  rests n s hs hn := by
    have ho := hwrite n s hs hn
    obtain ⟨m', hget⟩ := getElem?_writeAll hs (m := b.master)
    rw [Slave.write_of_not_operational ho] at hget
    exact ⟨hget, fun ν _ m => Slave.write_of_not_operational ho m⟩
  requests call hcall r hr := by
    obtain ⟨new, hnew, hall⟩ := adds_writeAll b.slaves (Traced.mk b.master [])
    have hmem : call ∈ new := by
      rw [List.append_nil] at hnew
      rw [← hnew]
      exact hcall
    obtain ⟨s, hs, ho, x, hx, -, hrequest⟩ := hall call hmem r hr
    obtain ⟨n, hn⟩ := List.mem_iff_getElem?.1 hs
    refine ⟨n, s, hn, fun haside => ?_, ?_⟩
    · rw [hwrite n s hn haside] at ho
      cases ho
    · rw [s.requests_eq, ← hrequest]
      exact List.mem_map_of_mem hx
  drops := write_dropping hwrite
  drops_calls := by
    have h : (b.traced.dropping writing).write = dropping writing <$> b.traced.write :=
      write_dropping hwrite
    have htraced : (b.dropping writing).traced = b.traced.dropping writing := rfl
    rw [htraced, h]
    rfl

/-- In every state of a run a cycle leaves alone the slaves that stand aside, and does without
them the same to the others. -/
theorem gated_run (registry : Registry) (name : String) (m : μ) (ops : List (Operation μ)) :
    Gated ((Session.start name m).run registry ops).bus
      ((Session.start name m).StandsAside registry (ops ++ [.read]))
      ((Session.start name m).StandsAside registry ops) := by
  refine gated_of_isOperational (fun n s hs h => ?_) (fun n s hs h => h.isOperational hs)
  refine h.isOperational ?_
  rw [Session.run_append_singleton]
  exact hs

end Bus

end ServoBus
