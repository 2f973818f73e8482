import ServoBus.Axis.Param

/-!
# Options that are tuned in place

The driver of a drive has options at hand, and a parameter of an axis changes them where they are.
Options outlive a fault, as everything does that is done in place. So it matters what comes first:
the options are only changed when the device has taken what was sent to it.

`applySetting?` says the same with options that come and go.
-/

namespace ServoBus.Axis

/-- A setup that has options at hand. -/
abbrev Tuning (μ α : Type) := Action (Options × Workspace μ) α

namespace Tuning

variable {μ α : Type}

/-- A setup that leaves the options alone. -/
def aside (x : Setup μ α) : Tuning μ α := Action.zoom (·.2) (fun w s => (s.1, w)) x

/-- A change of the options of a channel alone. -/
def onChannel (channel : Fin Param.maxChannels) (f : ChannelOptions → ChannelOptions) :
    Tuning μ Unit :=
  modify fun s => (s.1.modifyChannel channel f, s.2)

/-- Applies a parameter of an axis, and says whether it is one. -/
def apply [Master μ] (site : Site) (p : Param.Setting) : Tuning μ Bool := do
  let channel := Param.channelOf p.id
  let common := Param.commonOf p.id
  if p.id < firstParam then pure false
  else if firstEnable ≤ common then
    match enabledBy? common with
    | some f =>
      onChannel channel fun c => { c with requested := c.requested.assign f p.value.asBool }
      pure true
    | none => throw (.unknownFeature p.name)
  else match objectParams.find? (·.id == common), ratioParams.find? (·.id == common) with
    | some q, _ =>
      let value := q.number p.value
      aside <| Setup.writeParam site ⟨base channel + q.offset, q.subindex⟩
        (payload (8 * q.length) value) p.name
      onChannel channel (·.noteSent q.offset q.subindex value)
      pure true
    | none, some q =>
      aside (applyRatio site p q)
      pure true
    | none, none => pure false

end Tuning

end ServoBus.Axis
