import ServoBus.Param.Declaration

/-!
# Parameters of channels

A device with several axes has each of their parameters once for every channel. The
number of a parameter keeps its low three bits free for the channel, so eight
channels can be told apart.

A declaration for all channels is followed by those for the single ones, whose names
start with `ch1`, `ch2` and so on. The name without a channel is a second name for
the first channel.
-/

namespace ServoBus.Param

def maxChannels : Nat := 8

namespace Declaration

/-- The declaration for one channel, counted from zero. -/
def forChannel (d : Declaration) (channel : Nat) : Declaration :=
  { d with name := s!"ch{channel + 1}{d.name}", id := d.id + UInt32.ofNat channel }

@[simp] theorem kind_forChannel (d : Declaration) (channel : Nat) :
    (d.forChannel channel).kind = d.kind := rfl

/-- A declaration and those for the single channels. -/
def spread (channels : Nat) (d : Declaration) : List Declaration :=
  d :: (List.range channels).map d.forChannel

@[simp] theorem length_spread (channels : Nat) (d : Declaration) :
    (d.spread channels).length = channels + 1 := by
  simp [spread]

end Declaration

def perChannel (declarations : List Declaration) (channels : Nat) :
    Except Fault (List Declaration) :=
  if maxChannels < channels then .error (.tooManyChannels channels maxChannels)
  else .ok (declarations.flatMap (·.spread channels))

/-- The channel in a parameter number. -/
def channelOf (id : UInt32) : Fin maxChannels := ⟨id.toNat % maxChannels, Nat.mod_lt _ (by decide)⟩

/-- A parameter number without its channel. -/
def commonOf (id : UInt32) : UInt32 := UInt32.ofNat (id.toNat - channelOf id)

theorem toNat_commonOf (id : UInt32) : (commonOf id).toNat = id.toNat - channelOf id := by
  have := id.toNat_lt
  rw [commonOf, UInt32.toNat_ofNat_of_lt']
  exact Nat.lt_of_le_of_lt (Nat.sub_le ..) this

/-- A number consists of its channel and what is common to all channels. -/
theorem commonOf_add_channelOf (id : UInt32) :
    (commonOf id).toNat + channelOf id = id.toNat := by
  rw [toNat_commonOf]
  exact Nat.sub_add_cancel (Nat.mod_le ..)

end ServoBus.Param
