import ServoBus.Master

/-!
# What a cycle may expect of a master

The image that was set is the image from then on, and requests go their own way. Offsets
name a bit in a byte. A master with these laws is `Orderly`, and one that leaves the image alone
when it is asked for states is `Discreet`. The simplest one is the bench, which has no slaves
behind it and says yes to everything. A rack says no at times.
-/

namespace ServoBus

/-- Requests do not touch the process image, and every offset is that of a bit in a byte. -/
structure Master.Orderly (μ : Type) [Master μ] : Prop where
  image_setImage : ∀ (image : Bytes) (m : μ), image.length = (Master.image m).length →
    Master.image (Master.setImage image m) = image
  image_requestState : ∀ (r : RequestRef) (m : μ),
    Master.image (Master.requestState r m).2 = Master.image m
  image_startWrite : ∀ (r : RequestRef) (content : Bytes) (m : μ),
    Master.image (Master.startWrite r content m) = Master.image m
  bit_lt : ∀ (slave : Position) (a : ObjectAddress) (m m' : μ) (o : Offset),
    Master.locateEntry slave a m = (.ok o, m') → o.bit < 8

theorem Master.Orderly.image_mapImage {μ : Type} [Master μ] (h : Orderly μ) {f : Bytes → Bytes}
    (hf : ∀ image, (f image).length = image.length) (m : μ) :
    image (mapImage f m) = f (image m) :=
  h.image_setImage _ _ (hf _)

/-- Asking for the state of a slave does not touch the process image. -/
def Master.Discreet (μ : Type) [Master μ] : Prop :=
  ∀ (slave : Position) (m : μ), Master.image (Master.slaveState slave m).2 = Master.image m

/-- A master that only has a process image. Each object of a drive has four bytes in it,
and two slaves have the same ones. -/
structure Bench where
  bytes : Bytes
deriving DecidableEq, Repr

instance : Master Bench where
  upload _ _ length m := (.ok (List.replicate length 0), m)
  download _ _ _ m := (.ok (), m)
  addConfig _ _ _ m := (.ok (), m)
  configureSlave _ _ _ m := (.ok (), m)
  locateEntry _ a m := (.ok ⟨4 * (a.index.toNat - 0x6000), 0⟩, m)
  createRequest _ a _ m := (.ok ⟨a.index.toNat⟩, m)
  requestState _ m := (.success, m)
  startWrite _ _ m := m
  slaveState _ m := (.ok ⟨true, true, .op⟩, m)
  image m := m.bytes
  setImage bytes _ := ⟨bytes⟩

theorem Bench.orderly : Master.Orderly Bench where
  image_setImage _ _ _ := rfl
  image_requestState _ _ := rfl
  image_startWrite _ _ _ := rfl
  bit_lt _ _ _ _ o h := by
    simp only [Master.locateEntry, Prod.mk.injEq, Except.ok.injEq] at h
    rw [← h.1]
    exact Nat.zero_lt_succ 7

theorem Bench.discreet : Master.Discreet Bench := fun _ _ => rfl

/-- A master without a process image that numbers entries and requests as they come. It cannot
configure the slaves at some positions. -/
structure Rack where
  broken : List Position
  placed : Nat := 0
  requested : Nat := 0
deriving DecidableEq, Repr

instance : Master Rack where
  upload _ _ length m := (.ok (List.replicate length 0), m)
  download _ _ _ m := (.ok (), m)
  addConfig _ _ _ m := (.ok (), m)
  configureSlave slave _ _ m :=
    (if m.broken.contains slave then .error (.master "no such slave") else .ok (), m)
  locateEntry _ _ m := (.ok ⟨4 * m.placed, 0⟩, { m with placed := m.placed + 1 })
  createRequest _ _ _ m := (.ok ⟨m.requested⟩, { m with requested := m.requested + 1 })
  requestState _ m := (.success, m)
  startWrite _ _ m := m
  slaveState _ m := (.ok ⟨true, true, .op⟩, m)
  image _ := []
  setImage _ m := m

end ServoBus
