import ServoBus.Proofs.Action.Moves
import ServoBus.Proofs.Setup
import ServoBus.Proofs.Trace.Answers

/-!
# A setup depends on the answers of its master alone

`Setup.Agrees` compares a setup with the same setup under another master. The first one is traced
and says which calls were made, all of them such as a test admits. If the other master answers
these calls alike, the other setup makes the same calls, and no difference is seen between the
outcomes and between what was made: values may hold numbers of requests, and entries may be in
other places.

A proof of it follows the text of the setup: there is one lemma for each way to make a setup.
-/

namespace ServoBus

/-- What is seen of an entry. -/
def Registration.seen (F : Focus) (r : Registration) : Registration :=
  { r with offset? := r.offset?.map F.place }

namespace Registrations

/-- What is seen of registered entries. -/
def seen (F : Focus) (r : Registrations) : Registrations :=
  { r with entries := r.entries.map (·.seen F) }

theorem seen_sharp (r : Registrations) : r.seen .sharp = r := by
  have hid : (fun e : Registration => e.seen .sharp) = id := by
    funext e
    rw [Registration.seen, Focus.sharp, Option.map_id]
    rfl
  rw [seen, hid, List.map_id]

variable {F : Focus} {r r' : Registrations}

/-- Places have no say in whether there is room. -/
theorem room_eq_of_seen_eq (h : r'.seen F = r.seen F) :
    r'.device = r.device ∧ r'.capacity = r.capacity ∧ r'.size = r.size := by
  simp only [seen, mk.injEq] at h
  have hlength := congrArg List.length h.2.2
  rw [List.length_map, List.length_map] at hlength
  exact ⟨h.1, h.2.1, hlength⟩

theorem seen_extend (r : Registrations) (entries : List Registration) :
    (r.extend entries).seen F = (r.seen F).extend (entries.map (·.seen F)) := by
  rw [extend, seen, List.map_append]
  rfl

end Registrations

namespace Setup

open ServoBus.Action (Moves)

variable {μ ν α β γ δ : Type} [Master μ] [Master ν]

/-- All calls in between pass a test. -/
def Talks (P : MasterCall → Prop) (w w' : Workspace (Traced μ)) : Prop :=
  ∃ calls, (∀ call ∈ calls, P call) ∧ w'.master = Master.behind calls w.master

instance (P : MasterCall → Prop) : IsPreorder (Workspace (Traced μ)) (Talks P) where
  refl w := ⟨[], List.forall_mem_nil _, rfl⟩
  trans := by
    rintro w w' w'' ⟨calls, hP, hm⟩ ⟨calls', hP', hm'⟩
    refine ⟨calls ++ calls', ?_, by rw [Master.behind_append, hm', hm]⟩
    intro call hcall
    rcases List.mem_append.1 hcall with hcall | hcall
    · exact hP call hcall
    · exact hP' call hcall

/-- What is seen of what was made. -/
def seen (F : Focus) (w : Workspace μ) : Sync.Builder × Registrations × PinTable :=
  (w.syncs, w.regs.seen F, w.pins)

/-- If the calls are answered alike, both setups make the same calls, and no difference is seen
between what they come to. -/
structure Agrees (P : MasterCall → Prop) (F : Focus) (view : α → γ) (x : Setup (Traced μ) α)
    (y : Setup ν α) : Prop where
  talks : Moves (Talks P) x
  follows : ∀ {w : Workspace (Traced μ)} {v : Workspace ν} {calls : List MasterCall},
    seen F v = seen F w → (x.result w).2.master = Master.behind calls w.master →
      Master.Alike F calls w.master v.master →
        (y.result v).1.map view = (x.result w).1.map view ∧
          seen F (y.result v).2 = seen F (x.result w).2 ∧
          (y.result v).2.master = Master.behind calls v.master

variable {P : MasterCall → Prop} {F : Focus} {view : α → γ} {view' : β → δ}

section Combinators

/-- Outcomes that look the same have the same fault, or values that look the same. -/
theorem outcome_cases {x y : Except Fault α} (h : y.map view = x.map view) :
    (∃ e, x = .error e ∧ y = .error e) ∨ ∃ a b, x = .ok a ∧ y = .ok b ∧ view b = view a := by
  cases x with
  | error e =>
    cases y with
    | error e' =>
      cases h
      exact .inl ⟨e, rfl, rfl⟩
    | ok b => cases h
  | ok a =>
    cases y with
    | error e' => cases h
    | ok b => exact .inr ⟨a, b, rfl, rfl, Except.ok.inj h⟩

/-- Steps that leave both masters alone. -/
theorem agrees_of_silent {x : Setup (Traced μ) α} {y : Setup ν α}
    (hx : ∀ w, (x.result w).2.master = w.master) (hy : ∀ v, (y.result v).2.master = v.master)
    (h : ∀ w v, seen F v = seen F w →
      (y.result v).1.map view = (x.result w).1.map view ∧
        seen F (y.result v).2 = seen F (x.result w).2) : Agrees P F view x y where
  talks w := ⟨[], List.forall_mem_nil _, hx w⟩
  follows := by
    intro w v calls hwv hcalls _
    rw [hx] at hcalls
    obtain rfl : [] = calls := Master.eq_of_behind_eq hcalls
    exact ⟨(h w v hwv).1, (h w v hwv).2, hy v⟩

theorem agrees_pure {a b : α} (h : view b = view a) :
    Agrees P F view (pure a : Setup (Traced μ) α) (pure b : Setup ν α) :=
  agrees_of_silent (fun _ => rfl) (fun _ => rfl) fun _ _ hwv => ⟨congrArg Except.ok h, hwv⟩

theorem agrees_throw (e : Fault) :
    Agrees P F view (throw e : Setup (Traced μ) α) (throw e : Setup ν α) :=
  agrees_of_silent (fun _ => rfl) (fun _ => rfl) fun _ _ hwv => ⟨rfl, hwv⟩

theorem agrees_lift (x : Logged α) :
    Agrees P F view (liftM x : Setup (Traced μ) α) (liftM x : Setup ν α) :=
  agrees_of_silent (fun _ => rfl) (fun _ => rfl) fun _ _ hwv => ⟨rfl, hwv⟩

theorem agrees_ofChecked (x : Checked α) :
    Agrees P F view (Action.ofChecked x : Setup (Traced μ) α) (Action.ofChecked x : Setup ν α) :=
  agrees_of_silent (fun _ => rfl) (fun _ => rfl) fun _ _ hwv => ⟨rfl, hwv⟩

theorem agrees_within {τ : Type} (start : τ) (x : Action τ β) {view : β × τ → γ} :
    Agrees P F view (Action.within start x : Setup (Traced μ) (β × τ))
      (Action.within start x : Setup ν (β × τ)) :=
  agrees_of_silent (fun _ => rfl) (fun _ => rfl) fun _ _ hwv => ⟨rfl, hwv⟩

theorem agrees_onSyncs (x : Action Sync.Builder α) :
    Agrees P F view (onSyncs (μ := Traced μ) x) (onSyncs (μ := ν) x) := by
  refine agrees_of_silent (fun _ => rfl) (fun _ => rfl) fun w v hwv => ?_
  simp only [seen, Prod.mk.injEq] at hwv
  simp only [onSyncs, Action.result_zoom, seen, hwv, and_self]

theorem agrees_onPins (x : Action PinTable α) :
    Agrees P F view (onPins (μ := Traced μ) x) (onPins (μ := ν) x) := by
  refine agrees_of_silent (fun _ => rfl) (fun _ => rfl) fun w v hwv => ?_
  simp only [seen, Prod.mk.injEq] at hwv
  simp only [onPins, Action.result_zoom, seen, hwv, and_self]

/-- Where entries are appended does not depend on the places of others. -/
theorem agrees_append {view : RegRef → γ} (other : Registrations) :
    Agrees P F view (onRegs (μ := Traced μ) (Registrations.append other))
      (onRegs (μ := ν) (Registrations.append other)) := by
  refine agrees_of_silent (fun _ => rfl) (fun _ => rfl) fun w v hwv => ?_
  simp only [seen, Prod.mk.injEq] at hwv
  obtain ⟨hsyncs, hregs, hpins⟩ := hwv
  obtain ⟨hdevice, hcapacity, hsize⟩ := Registrations.room_eq_of_seen_eq hregs
  simp only [onRegs, Action.result_zoom, Registrations.result_append, seen, hsyncs, hpins,
    hdevice, hcapacity, hsize]
  split
  · exact ⟨rfl, by rw [hregs]⟩
  · exact ⟨rfl, by rw [Registrations.seen_extend, Registrations.seen_extend, hregs]⟩

/-- A step of the master that is one call. -/
theorem agrees_onMaster (call : MasterCall) (answer : Except Fault α → Answer) (hcall : P call)
    {step : Traced μ → Except Fault α × Traced μ} {step' : ν → Except Fault α × ν}
    (hstep : ∀ t, call.perform t = Prod.map answer id (step t))
    (hstep' : ∀ n, call.perform n = Prod.map answer id (step' n))
    (hview : ∀ r r', (answer r').seen F = (answer r).seen F → r'.map view = r.map view) :
    Agrees P F view (onMaster step) (onMaster step') where
  talks w := ⟨[call], by simpa using hcall, (congrArg Prod.snd (hstep w.master)).symm⟩
  follows := by
    intro w v calls hwv hcalls halike
    have hone : Master.behind [call] w.master = Master.behind calls w.master := by
      rw [← hcalls]
      exact congrArg Prod.snd (hstep w.master)
    obtain rfl := Master.eq_of_behind_eq hone
    have hfirst := (List.cons_eq_cons.1 halike).1
    rw [hstep, hstep'] at hfirst
    exact ⟨hview _ _ hfirst, hwv, (congrArg Prod.snd (hstep' v.master)).symm⟩

theorem Agrees.imp {Q : MasterCall → Prop} {x : Setup (Traced μ) α} {y : Setup ν α}
    (h : Agrees P F view x y) (hPQ : ∀ call, P call → Q call) : Agrees Q F view x y where
  talks w := by
    obtain ⟨calls, hcalls, hmaster⟩ := h.talks w
    exact ⟨calls, fun call hcall => hPQ call (hcalls call hcall), hmaster⟩
  follows := h.follows

theorem Agrees.noting {x : Setup (Traced μ) α} {y : Setup ν α} (h : Agrees P F view x y)
    (note : Fault → Logged Unit) : Agrees P F view (x.noting note) (y.noting note) where
  talks := h.talks.noting note
  follows := by
    intro w v calls
    rw [Action.result_noting, Action.result_noting]
    exact h.follows

theorem Agrees.map {x : Setup (Traced μ) α} {y : Setup ν α} (h : Agrees P F view x y)
    {f : α → β} (hf : ∀ a b, view b = view a → view' (f b) = view' (f a)) :
    Agrees P F view' (f <$> x) (f <$> y) where
  talks := h.talks.map f
  follows := by
    intro w v calls hwv hcalls halike
    rw [Action.result_map] at hcalls ⊢
    rw [Action.result_map]
    obtain ⟨hout, hrest⟩ := h.follows hwv hcalls halike
    refine ⟨?_, hrest⟩
    rcases outcome_cases hout with ⟨e, hx, hy⟩ | ⟨a, b, hx, hy, hab⟩
    · rw [hx, hy]
    · rw [hx, hy]
      exact congrArg Except.ok (hf a b hab)

theorem Agrees.map_id {x : Setup (Traced μ) α} {y : Setup ν α} (h : Agrees P F id x y)
    (f : α → β) : Agrees P F id (f <$> x) (f <$> y) :=
  h.map fun _ _ hab => congrArg f hab

/-- Parts that go on behind a first one: with its value, or with its fault. -/
theorem Agrees.andThen {x : Setup (Traced μ) α} {y : Setup ν α} (hx : Agrees P F view x y)
    (next : Except Fault α → Setup (Traced μ) β) (next' : Except Fault α → Setup ν β)
    (hnext : ∀ r r', r'.map view = r.map view → Agrees P F view' (next r) (next' r'))
    {z : Setup (Traced μ) β} {z' : Setup ν β}
    (hz : ∀ w, z.result w = (next (x.result w).1).result (x.result w).2)
    (hz' : ∀ v, z'.result v = (next' (y.result v).1).result (y.result v).2) :
    Agrees P F view' z z' where
  talks w := by
    rw [hz]
    exact trans_of (Talks P) (hx.talks w) ((hnext _ _ rfl).talks _)
  follows := by
    intro w v calls hwv hcalls halike
    obtain ⟨calls₁, -, hcalls₁⟩ := hx.talks w
    obtain ⟨calls₂, -, hcalls₂⟩ := (hnext _ _ rfl).talks (x.result w).2
    rw [hz] at hcalls
    obtain rfl : calls = calls₁ ++ calls₂ := by
      apply Master.eq_of_behind_eq (t := w.master)
      rw [← hcalls, Master.behind_append, ← hcalls₁, ← hcalls₂]
    obtain ⟨halike₁, halike₂⟩ := Master.alike_append_iff.1 halike
    obtain ⟨hout, hseen, hmaster⟩ := hx.follows hwv hcalls₁ halike₁
    rw [← hcalls₁, ← hmaster] at halike₂
    obtain ⟨hout', hseen', hmaster'⟩ := (hnext _ _ hout).follows hseen hcalls₂ halike₂
    rw [hz, hz', Master.behind_append, ← hmaster]
    exact ⟨hout', hseen', hmaster'⟩

theorem Agrees.bind {x : Setup (Traced μ) α} {y : Setup ν α} (hx : Agrees P F view x y)
    {f : α → Setup (Traced μ) β} {g : α → Setup ν β}
    (hf : ∀ a b, view b = view a → Agrees P F view' (f a) (g b)) :
    Agrees P F view' (x >>= f) (y >>= g) := by
  let next : Except Fault α → Setup (Traced μ) β
    | .ok a => f a
    | .error e => throw e
  let next' : Except Fault α → Setup ν β
    | .ok b => g b
    | .error e => throw e
  refine hx.andThen next next' ?_ ?_ ?_
  · intro r r' h
    rcases outcome_cases h with ⟨e, rfl, rfl⟩ | ⟨a, b, rfl, rfl, hab⟩
    · exact agrees_throw e
    · exact hf a b hab
  · intro w
    rw [Action.result_bind]
    rcases x.result w with ⟨_ | _, _⟩ <;> rfl
  · intro v
    rw [Action.result_bind]
    rcases y.result v with ⟨_ | _, _⟩ <;> rfl

/-- Where the first part has a value that is seen in full. -/
theorem Agrees.bind_id {x : Setup (Traced μ) α} {y : Setup ν α} (hx : Agrees P F id x y)
    {f : α → Setup (Traced μ) β} {g : α → Setup ν β}
    (hf : ∀ a, Agrees P F view' (f a) (g a)) : Agrees P F view' (x >>= f) (y >>= g) := by
  refine hx.bind fun a b hab => ?_
  obtain rfl : b = a := hab
  exact hf b

theorem Agrees.tryCatch {x : Setup (Traced μ) α} {y : Setup ν α} (hx : Agrees P F view x y)
    {f : Fault → Setup (Traced μ) α} {g : Fault → Setup ν α}
    (hf : ∀ e, Agrees P F view (f e) (g e)) :
    Agrees P F view (tryCatch x f) (tryCatch y g) := by
  let next : Except Fault α → Setup (Traced μ) α
    | .ok a => pure a
    | .error e => f e
  let next' : Except Fault α → Setup ν α
    | .ok b => pure b
    | .error e => g e
  refine hx.andThen next next' ?_ ?_ ?_
  · intro r r' h
    rcases outcome_cases h with ⟨e, rfl, rfl⟩ | ⟨a, b, rfl, rfl, hab⟩
    · exact hf e
    · exact agrees_pure hab
  · intro w
    rw [Action.result_tryCatch]
    rcases x.result w with ⟨_ | _, _⟩ <;> rfl
  · intro v
    rw [Action.result_tryCatch]
    rcases y.result v with ⟨_ | _, _⟩ <;> rfl

/-- A part that looks at what was made so far. -/
theorem agrees_get_bind
    {f : Sync.Builder × Registrations × PinTable → Setup (Traced μ) β}
    {g : Sync.Builder × Registrations × PinTable → Setup ν β}
    (h : ∀ x, Agrees P F view' (f x) (g x)) :
    Agrees P F view' (get >>= fun w => f (seen F w)) (get >>= fun v => g (seen F v)) where
  talks w := (h (seen F w)).talks w
  follows := by
    intro w v calls hwv hcalls halike
    have hg : (get >>= fun v => g (seen F v)).result v = (g (seen F w)).result v := by
      rw [← hwv]
      rfl
    rw [hg]
    exact (h (seen F w)).follows hwv hcalls halike

theorem agrees_mapM {f : α → Setup (Traced μ) β} {g : α → Setup ν β}
    (h : ∀ a, Agrees P F view' (f a) (g a)) (as : List α) :
    Agrees P F (List.map view') (as.mapM f) (as.mapM g) := by
  induction as with
  | nil => exact agrees_pure rfl
  | cons a as ih =>
    rw [List.mapM_cons, List.mapM_cons]
    refine (h a).bind fun b b' hb => ih.bind fun bs bs' hbs => agrees_pure ?_
    rw [List.map_cons, List.map_cons, hb, hbs]

theorem agrees_foldlM {f : β → α → Setup (Traced μ) β} {g : β → α → Setup ν β}
    (h : ∀ b a, Agrees P F id (f b a) (g b a)) (as : List α) (b : β) :
    Agrees P F id (as.foldlM f b) (as.foldlM g b) := by
  induction as generalizing b with
  | nil => exact agrees_pure rfl
  | cons a as ih =>
    rw [List.foldlM_cons, List.foldlM_cons]
    exact (h b a).bind_id ih

end Combinators

/-! ## The steps of a setup -/

section Steps

variable {site : Site}

theorem agrees_addPin (label? : Option String) (name : String) (kind : Pin.Kind)
    (direction : Pin.Direction) :
    Agrees P F id (addPin (μ := Traced μ) site label? name kind direction)
      (addPin (μ := ν) site label? name kind direction) :=
  agrees_onPins _

theorem agrees_putPin (ref : PinRef) (v : Pin.Value) :
    Agrees P F id (putPin (μ := Traced μ) ref v) (putPin (μ := ν) ref v) :=
  agrees_onPins _

theorem agrees_upload (a : ObjectAddress) (length : Nat) :
    Agrees (MasterCall.Prepares site.position) F id
      (onMaster (μ := Traced μ) (Master.upload site.position a length))
      (onMaster (μ := ν) (Master.upload site.position a length)) := by
  apply agrees_onMaster (.upload site.position a length) .content
  · exact rfl
  · exact fun _ => rfl
  · exact fun _ => rfl
  · rintro r r' ⟨⟩
    rfl

theorem agrees_download (a : ObjectAddress) (content : Bytes) :
    Agrees (MasterCall.Prepares site.position) F id
      (onMaster (μ := Traced μ) (Master.download site.position a content))
      (onMaster (μ := ν) (Master.download site.position a content)) := by
  apply agrees_onMaster (.download site.position a content) .done
  · exact rfl
  · exact fun _ => rfl
  · exact fun _ => rfl
  · rintro r r' ⟨⟩
    rfl

theorem agrees_addConfig (a : ObjectAddress) (content : Bytes) :
    Agrees (MasterCall.Prepares site.position) F id
      (onMaster (μ := Traced μ) (Master.addConfig site.position a content))
      (onMaster (μ := ν) (Master.addConfig site.position a content)) := by
  apply agrees_onMaster (.addConfig site.position a content) .done
  · exact rfl
  · exact fun _ => rfl
  · exact fun _ => rfl
  · rintro r r' ⟨⟩
    rfl

/-- The number of a request may look different. -/
theorem agrees_createRequest (a : ObjectAddress) (length : Nat) :
    Agrees (MasterCall.Prepares site.position) F F.request
      (onMaster (μ := Traced μ) (Master.createRequest site.position a length))
      (onMaster (μ := ν) (Master.createRequest site.position a length)) := by
  apply agrees_onMaster (.createRequest site.position a length) .request
  · exact rfl
  · exact fun _ => rfl
  · exact fun _ => rfl
  · exact fun r r' h => Answer.request.inj h

theorem agrees_readObject (a : ObjectAddress) (length : Nat) :
    Agrees (MasterCall.Prepares site.position) F id
      (readObject (μ := Traced μ) site a length) (readObject (μ := ν) site a length) := by
  refine ((agrees_upload a length).noting _).bind_id fun content => ?_
  split
  · exact (agrees_lift _).bind_id fun _ => (agrees_throw _).bind_id fun _ => agrees_pure rfl
  · exact agrees_pure rfl

theorem agrees_readWord32 (a : ObjectAddress) :
    Agrees (MasterCall.Prepares site.position) F id (readWord32 (μ := Traced μ) site a)
      (readWord32 (μ := ν) site a) :=
  (agrees_readObject a 4).map_id _

theorem agrees_writeParam (a : ObjectAddress) (content : Bytes) (param : String) :
    Agrees (MasterCall.Prepares site.position) F id
      (writeParam (μ := Traced μ) site a content param)
      (writeParam (μ := ν) site a content param) :=
  (((agrees_download a content).bind_id fun _ => agrees_addConfig a content).noting _).noting _

end Steps

end Setup

end ServoBus
