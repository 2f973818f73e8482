import ServoBus.Proofs.Request.Turn

/-!
# Runs of a writer

A session is a writer with its master and all that happened so far. In a run the writer is
given values, and it may be told what the object holds; between two cycles the master may
become any other, so its answers are arbitrary. What the object is known to hold, and whether a
request is on its way, is read off the history alone, and the writer agrees with that in every
state of a run. The laws of the calls follow: one request at a time, nothing that is known
already is sent, and only a request that succeeded counts.
-/

namespace ServoBus.Writer

/-- What can happen to a writer. -/
inductive Operation (μ : Type) where
  | write (v : Int)
  | reset (current : Int)
  /-- The master becomes another one. -/
  | alter (m : μ)

/-- What happened to a writer, or what it did. -/
inductive Event where
  | given (v : Int)
  | reset (current : Int)
  | call (c : RequestCall)
deriving DecidableEq, Repr

/-- The history has the latest event first. -/
structure Session (μ : Type) where
  writer : Writer
  master : μ
  history : List Event := []

section History

/-- The value that the writer was given last. -/
def given? : List Event → Option Int
  | [] => none
  | .given v :: _ => some v
  | .reset _ :: earlier => given? earlier
  | .call _ :: earlier => given? earlier

/-- The value for which the latest request was sent: the one given in its cycle. -/
def issued? : List Event → Option Int
  | [] => none
  | .given _ :: earlier => issued? earlier
  | .reset _ :: earlier => issued? earlier
  | .call (.poll _ _) :: earlier => issued? earlier
  | .call (.issue _ _) :: earlier => given? earlier

/-- What the object is known to hold: what was told last, or the value of a request that
succeeded since then. -/
def known (seed : Int) : List Event → Int
  | [] => seed
  | .given _ :: earlier => known seed earlier
  | .reset current :: _ => current
  | .call (.poll _ .success) :: earlier => (issued? earlier).getD seed
  | .call (.poll _ _) :: earlier => known seed earlier
  | .call (.issue _ _) :: earlier => known seed earlier

/-- A request was sent and was found busy ever since. -/
def InFlight : List Event → Prop
  | [] => False
  | .given _ :: earlier => InFlight earlier
  | .reset _ :: earlier => InFlight earlier
  | .call (.poll _ .busy) :: earlier => InFlight earlier
  | .call (.poll _ _) :: _ => False
  | .call (.issue _ _) :: _ => True

/-- Every call has its reason in what was before it. -/
def Ordered (request : RequestRef) (width : Nat) (seed : Int) : List Event → Prop
  | [] => True
  | .given _ :: earlier => Ordered request width seed earlier
  | .reset _ :: earlier => Ordered request width seed earlier
  | .call (.poll r _) :: earlier =>
    (r = request ∧ InFlight earlier) ∧ Ordered request width seed earlier
  | .call (.issue r content) :: earlier =>
    (r = request ∧ ¬ InFlight earlier ∧ ∃ v, given? earlier = some v ∧
      content = payload width v ∧ v ≠ known seed earlier) ∧ Ordered request width seed earlier

variable {request : RequestRef} {width : Nat} {seed : Int}

theorem Ordered.tail {e : Event} {earlier : List Event}
    (h : Ordered request width seed (e :: earlier)) : Ordered request width seed earlier := by
  cases e with
  | given v => exact h
  | reset c => exact h
  | call c =>
    cases c with
    | poll r a => exact h.2
    | issue r content => exact h.2

theorem Ordered.suffix {later earlier : List Event}
    (h : Ordered request width seed (later ++ earlier)) : Ordered request width seed earlier := by
  induction later with
  | nil => exact h
  | cons e later ih => exact ih h.tail

/-- Behind a request that is on its way there was nothing but asking for it. -/
theorem InFlight.exists_issue {h : List Event} (hf : InFlight h)
    (ho : Ordered request width seed h) :
    ∃ between content earlier, h = between ++ .call (.issue request content) :: earlier ∧
      (∀ c, .call c ∈ between → c = .poll request .busy) ∧ issued? h = given? earlier := by
  induction h with
  | nil => exact hf.elim
  | cons e h ih =>
    -- one more event that is no call
    have hskip (he : ∀ c, e = .call c → c = .poll request .busy) (hf : InFlight h)
        (ho : Ordered request width seed h) (hi : issued? (e :: h) = issued? h) :
        ∃ between content earlier, e :: h = between ++ .call (.issue request content) :: earlier ∧
          (∀ c, .call c ∈ between → c = .poll request .busy) ∧
            issued? (e :: h) = given? earlier := by
      obtain ⟨between, content, earlier, rfl, hbetween, hissued⟩ := ih hf ho
      refine ⟨e :: between, content, earlier, rfl, ?_, hi.trans hissued⟩
      intro c hc
      rcases List.mem_cons.1 hc with hc | hc
      · exact he c hc.symm
      · exact hbetween c hc
    cases e with
    | given v => exact hskip (fun c hc => by cases hc) hf ho rfl
    | reset c => exact hskip (fun c hc => by cases hc) hf ho rfl
    | call c =>
      cases c with
      | poll r answer =>
        obtain ⟨⟨rfl, hflight⟩, ho⟩ := ho
        cases answer with
        | busy => exact hskip (fun c hc => by cases hc; rfl) hflight ho rfl
        | unused => exact hf.elim
        | success => exact hf.elim
        | error => exact hf.elim
      | issue r content =>
        obtain ⟨⟨rfl, -⟩, -⟩ := ho
        exact ⟨[], content, h, rfl, fun c hc => (List.not_mem_nil hc).elim, rfl⟩

/-- A request that is not on its way any more was found to be so. -/
theorem exists_poll_of_not_inFlight {between earlier : List Event} {r : RequestRef}
    {content : Bytes}
    (ho : Ordered request width seed (between ++ .call (.issue r content) :: earlier))
    (hf : ¬ InFlight (between ++ .call (.issue r content) :: earlier)) :
    ∃ answer, .call (.poll request answer) ∈ between ∧ answer ≠ .busy := by
  induction between with
  | nil => exact absurd trivial hf
  | cons e between ih =>
    have hskip (hf : ¬ InFlight (between ++ .call (.issue r content) :: earlier)) :
        ∃ answer, .call (.poll request answer) ∈ e :: between ∧ answer ≠ .busy := by
      obtain ⟨answer, hmem, hne⟩ := ih ho.tail hf
      exact ⟨answer, List.mem_cons_of_mem _ hmem, hne⟩
    cases e with
    | given v => exact hskip hf
    | reset c => exact hskip hf
    | call c =>
      cases c with
      | issue r' content' => exact absurd trivial hf
      | poll r' answer =>
        obtain ⟨⟨rfl, -⟩, -⟩ := ho
        by_cases hbusy : answer = .busy
        · subst hbusy
          exact hskip hf
        · exact ⟨answer, List.mem_cons_self, hbusy⟩

end History

namespace Session

variable {μ : Type}

/-- A writer that was just made. -/
def start (name : String) (request : RequestRef) (width : Nat) (seed : Int) (m : μ) : Session μ :=
  { writer := .start name request width seed, master := m }

section Run

variable [Master μ]

def perform (st : Session μ) : Operation μ → Session μ
  | .write v =>
    let (w, t) := (st.writer.write v (⟨st.master, []⟩ : Watched μ)).value
    ⟨w, t.master, t.calls.map .call ++ .given v :: st.history⟩
  | .reset current =>
    { st with writer := st.writer.reset current, history := .reset current :: st.history }
  | .alter m => { st with master := m }

def run (st : Session μ) (ops : List (Operation μ)) : Session μ := ops.foldl perform st

end Run

/-- The writer agrees with the history. -/
structure Tracks (request : RequestRef) (width : Nat) (seed : Int) (st : Session μ) : Prop where
  ofRequest : st.writer.request = request
  ofWidth : st.writer.width = width
  last : st.writer.last = known seed st.history
  busy : st.writer.phase = .busy ↔ InFlight st.history
  pending : st.writer.phase = .busy → issued? st.history = some st.writer.pending
  ordered : Ordered request width seed st.history

variable {request : RequestRef} {width : Nat} {seed : Int} {st : Session μ}

theorem tracks_start (name : String) (request : RequestRef) (width : Nat) (seed : Int) (m : μ) :
    (start name request width seed m).Tracks request width seed where
  ofRequest := rfl
  ofWidth := rfl
  last := rfl
  busy := by
    constructor
    · intro h
      cases h
    · exact False.elim
  pending h := by cases h
  ordered := trivial

/-- Whatever turn the writer takes, it still agrees with the history. -/
theorem Tracks.turn (h : st.Tracks request width seed) {v : Int} {calls : List RequestCall}
    {w : Writer} (ht : st.writer.Turn v calls w) (m : μ) :
    Tracks request width seed ⟨w, m, calls.map .call ++ .given v :: st.history⟩ := by
  have hidle (hphase : st.writer.phase ≠ .busy) : ¬ InFlight st.history := mt h.busy.2 hphase
  have hpending (hphase : st.writer.phase = .busy) :
      known seed (.call (.poll st.writer.request .success) :: .given v :: st.history) =
        st.writer.pending := by
    have hissued : issued? st.history = some st.writer.pending := h.pending hphase
    show (issued? st.history).getD seed = _
    rw [hissued]
    rfl
  have hpoll (hphase : st.writer.phase = .busy) (answer : RequestState) : Ordered request width
      seed (.call (.poll st.writer.request answer) :: .given v :: st.history) :=
    ⟨⟨h.ofRequest, h.busy.1 hphase⟩, h.ordered⟩
  cases ht with
  | kept hphase hv => exact ⟨h.ofRequest, h.ofWidth, h.last, h.busy, h.pending, h.ordered⟩
  | sent hphase hv =>
    refine ⟨h.ofRequest, h.ofWidth, h.last, ⟨fun _ => trivial, fun _ => rfl⟩, fun _ => rfl, ?_⟩
    refine ⟨⟨h.ofRequest, hidle hphase, v, rfl, ?_, ?_⟩, h.ordered⟩
    · rw [h.ofWidth]
    · intro heq
      exact hv (h.last.trans heq.symm)
  | waiting hphase =>
    exact ⟨h.ofRequest, h.ofWidth, h.last, h.busy, h.pending, hpoll hphase .busy⟩
  | settled hphase hv =>
    exact ⟨h.ofRequest, h.ofWidth, (hpending hphase).symm, ⟨nofun, False.elim⟩, nofun,
      hpoll hphase .success⟩
  | renewed hphase hv =>
    refine ⟨h.ofRequest, h.ofWidth, (hpending hphase).symm, ⟨fun _ => trivial, fun _ => rfl⟩,
      fun _ => rfl, ?_⟩
    refine ⟨⟨h.ofRequest, id, v, rfl, ?_, ?_⟩, hpoll hphase .success⟩
    · rw [h.ofWidth]
    · intro heq
      exact hv ((hpending hphase).symm.trans heq.symm)
  | failed hphase answer ha =>
    rcases ha with rfl | rfl
    · exact ⟨h.ofRequest, h.ofWidth, h.last, ⟨nofun, False.elim⟩, nofun, hpoll hphase .error⟩
    · exact ⟨h.ofRequest, h.ofWidth, h.last, ⟨nofun, False.elim⟩, nofun, hpoll hphase .unused⟩

/-- A writer that is told what the object holds still waits for its request. -/
theorem Tracks.reset (h : st.Tracks request width seed) (current : Int) :
    Tracks request width seed { st with
      writer := st.writer.reset current, history := .reset current :: st.history } := by
  have hphase : (st.writer.reset current).phase = .busy ↔ st.writer.phase = .busy := by
    unfold Writer.reset
    cases st.writer.phase <;> simp
  constructor
  case ofRequest => exact h.ofRequest
  case ofWidth => exact h.ofWidth
  case last => rfl
  case busy => exact hphase.trans h.busy
  case pending => exact fun hbusy => h.pending (hphase.1 hbusy)
  case ordered => exact h.ordered

variable [Master μ]

theorem Tracks.perform (h : st.Tracks request width seed) (op : Operation μ) :
    (st.perform op).Tracks request width seed := by
  cases op with
  | write v => exact h.turn (st.writer.turn_write v st.master) _
  | reset current => exact h.reset current
  | alter m => exact ⟨h.ofRequest, h.ofWidth, h.last, h.busy, h.pending, h.ordered⟩

theorem Tracks.run (h : st.Tracks request width seed) (ops : List (Operation μ)) :
    (st.run ops).Tracks request width seed := by
  induction ops generalizing st with
  | nil => exact h
  | cons op ops ih => exact ih (h.perform op)

/-- What holds of a writer and its calls: there is never more than one request on its way, only
a request that succeeded counts, what is known is not sent, and no value is forgotten. -/
structure Faithful (request : RequestRef) (width : Nat) (seed : Int) (st : Session μ) : Prop where
  /-- Between two requests the first one was found to be over. -/
  single : ∀ later between earlier r r' content content',
    st.history = later ++ .call (.issue r' content') ::
        (between ++ .call (.issue r content) :: earlier) →
      r = request ∧ r' = request ∧
        ∃ answer, .call (.poll request answer) ∈ between ∧ answer ≠ .busy
  /-- The latest of the seed, what was told and the requests that succeeded. -/
  last : st.writer.last = known seed st.history
  /-- A request that succeeded was not found to be over before, and what was sent is known. -/
  committed : ∀ later earlier r,
    st.history = later ++ .call (.poll r .success) :: earlier →
      r = request ∧ ∃ between content sent v,
        earlier = between ++ .call (.issue request content) :: sent ∧
          (∀ c, .call c ∈ between → c = .poll request .busy) ∧
          given? sent = some v ∧ content = payload width v ∧
          known seed (.call (.poll r .success) :: earlier) = v
  /-- What is sent is the value given in that cycle, and it was not known. -/
  changed : ∀ later earlier r content,
    st.history = later ++ .call (.issue r content) :: earlier →
      ∃ v, given? earlier = some v ∧ content = payload width v ∧ v ≠ known seed earlier
  /-- A value is on its way, or it is known, or the request before it has just failed. -/
  kept : ∀ v, (st.perform (.write v)).writer.phase = .busy ∨
    (st.perform (.write v)).writer.last = v ∨
      ∃ answer, (answer = .error ∨ answer = .unused) ∧
        (st.perform (.write v)).history =
          .call (.poll request answer) :: .given v :: st.history

theorem Tracks.faithful (h : st.Tracks request width seed) :
    st.Faithful request width seed where
  single := by
    intro later between earlier r r' content content' heq
    have ho := h.ordered
    rw [heq] at ho
    obtain ⟨⟨hr', hidle, -⟩, ho⟩ := ho.suffix
    exact ⟨ho.suffix.1.1, hr', exists_poll_of_not_inFlight ho hidle⟩
  last := h.last
  committed := by
    intro later earlier r heq
    have ho := h.ordered
    rw [heq] at ho
    obtain ⟨⟨hr, hflight⟩, ho⟩ := ho.suffix
    obtain ⟨between, content, sent, rfl, hbetween, hissued⟩ := hflight.exists_issue ho
    obtain ⟨⟨-, -, v, hv, hcontent, -⟩, -⟩ := ho.suffix
    refine ⟨hr, between, content, sent, v, rfl, hbetween, hv, hcontent, ?_⟩
    show (issued? _).getD seed = v
    rw [hissued, hv]
    rfl
  changed := by
    intro later earlier r content heq
    have ho := h.ordered
    rw [heq] at ho
    exact ho.suffix.1.2.2
  kept := by
    intro v
    have hhistory (calls : List RequestCall) (w : Writer) (ht : st.writer.Turn v calls w) :
        w.phase = .busy ∨ w.last = v ∨ ∃ answer, (answer = .error ∨ answer = .unused) ∧
          calls.map Event.call ++ .given v :: st.history =
            .call (.poll request answer) :: .given v :: st.history := by
      cases ht with
      | kept hphase hv => exact .inr (.inl hv)
      | sent hphase hv => exact .inl rfl
      | waiting hphase => exact .inl hphase
      | settled hphase hv => exact .inr (.inl hv)
      | renewed hphase hv => exact .inl rfl
      | failed hphase answer ha =>
        rw [h.ofRequest]
        exact .inr (.inr ⟨answer, ha, rfl⟩)
    exact hhistory _ _ (st.writer.turn_write v st.master)

/-- A writer is faithful in every state of every run. -/
theorem faithful_run (name : String) (request : RequestRef) (width : Nat) (seed : Int) (m : μ)
    (ops : List (Operation μ)) :
    ((start name request width seed m).run ops).Faithful request width seed :=
  ((tracks_start name request width seed m).run ops).faithful

end Session

end ServoBus.Writer
