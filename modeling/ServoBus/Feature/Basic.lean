import ServoBus.Pin.Value
import ServoBus.Text.Caseless

/-!
# Features of a drive

A drive has a control word and a status word; everything else is optional. A feature
is an operating mode or an optional object of one channel. An operating mode is no
object of its own: it only asks for the objects that it needs.

The order of the features is the order in which their objects are mapped, registered
and shown as pins. `all` lists them in this order, and `index` is the place in it.
-/

namespace ServoBus

/-- How an optional object is exchanged with the drive: with the process image in
either direction in every cycle, or on change by a request of its own. -/
inductive Transfer where
  | input
  | output
  | service
deriving DecidableEq, Repr

/-- How the bits of an object are to be understood. -/
structure Format where
  width : Nat
  signed : Bool
deriving DecidableEq, Repr

/-- The type of the pin that shows an object of this format. -/
def Format.pinKind (f : Format) : Pin.Kind := if f.signed then .s32 else .u32

/-- An optional object. Its offset counts from the first object of the channel. -/
structure DriveObject where
  transfer : Transfer
  pinName : String
  offset : UInt16
  subindex : UInt8
  format : Format
deriving DecidableEq, Repr

/-- The index of an object in the channel whose objects start at `base`. -/
def DriveObject.index (o : DriveObject) (base : UInt16) : UInt16 := base + o.offset

inductive Feature where
  | pp
  | pv
  | tq
  | hm
  | ip
  | csp
  | csv
  | cst
  | vl
  | actualCurrent
  | actualFollowingError
  | actualPosition
  | actualTorque
  | actualVelocity
  | actualVelocitySensor
  | actualVl
  | actualVoltage
  | controlEffort
  | demandVl
  | errorCode
  | opmodeDisplay
  | positionDemand
  | probeStatus
  | torqueDemand
  | velocityDemand
  | digitalInput
  | opmode
  | profileVelocity
  | targetPosition
  | targetTorque
  | targetVelocity
  | targetVl
  | digitalOutput
  | followingErrorTimeout
  | followingErrorWindow
  | homeAccel
  | homeMethod
  | homeVelocityFast
  | homeVelocitySlow
  | interpolationTimePeriod
  | maximumAcceleration
  | maximumCurrent
  | maximumDeceleration
  | maximumMotorRpm
  | maximumSlippage
  | maximumTorque
  | motionProfile
  | motorRatedCurrent
  | motorRatedTorque
  | polarity
  | positioningTime
  | positioningWindow
  | profileAccel
  | profileDecel
  | profileEndVelocity
  | profileMaxVelocity
  | torqueProfileType
  | torqueSlope
  | velocityErrorTime
  | velocityErrorWindow
  | velocitySensorSelector
  | velocityThresholdTime
  | velocityThresholdWindow
  | vlAccel
  | vlDecel
  | vlMaximum
  | vlMinimum
deriving DecidableEq, Repr

namespace Feature

/-- The name of a feature in a configuration, and its object unless it is a mode. -/
structure Descriptor where
  configName : String
  object? : Option DriveObject
deriving DecidableEq, Repr

namespace Descriptor

def s8 : Format := ⟨8, true⟩

def s16 : Format := ⟨16, true⟩

def s32 : Format := ⟨32, true⟩

def u8 : Format := ⟨8, false⟩

def u16 : Format := ⟨16, false⟩

def u32 : Format := ⟨32, false⟩

def mode (configName : String) : Descriptor := ⟨configName, none⟩

def input (configName pinName : String) (offset : UInt16) (subindex : UInt8) (format : Format) :
    Descriptor :=
  ⟨configName, some ⟨.input, pinName, offset, subindex, format⟩⟩

def output (configName pinName : String) (offset : UInt16) (subindex : UInt8)
    (format : Format) : Descriptor :=
  ⟨configName, some ⟨.output, pinName, offset, subindex, format⟩⟩

def service (configName pinName : String) (offset : UInt16) (subindex : UInt8)
    (format : Format) : Descriptor :=
  ⟨configName, some ⟨.service, pinName, offset, subindex, format⟩⟩

end Descriptor

open Descriptor in
def descriptor : Feature → Descriptor
  | pp => mode "enablePP"
  | pv => mode "enablePV"
  | tq => mode "enableTQ"
  | hm => mode "enableHM"
  | ip => mode "enableIP"
  | csp => mode "enableCSP"
  | csv => mode "enableCSV"
  | cst => mode "enableCST"
  | vl => mode "enableVL"
  | actualCurrent => input "enableActualCurrent" "actual-current" 0x78 0 s16
  | actualFollowingError => input "enableActualFollowingError" "actual-following-error" 0xf4 0 u32
  | actualPosition => input "enableActualPosition" "actual-position" 0x64 0 s32
  | actualTorque => input "enableActualTorque" "actual-torque" 0x77 0 s32
  | actualVelocity => input "enableActualVelocity" "actual-velocity" 0x6c 0 s32
  | actualVelocitySensor => input "enableActualVelocitySensor" "actual-velocity-sensor" 0x69 0 s32
  | actualVl => input "enableActualVL" "actual-vl" 0x44 0 s16
  | actualVoltage => input "enableActualVoltage" "actual-voltage" 0x79 0 u32
  | controlEffort => input "enableControlEffort" "control-effort" 0xfa 0 s32
  | demandVl => input "enableDemandVL" "demand-vl" 0x43 0 s16
  | errorCode => input "enableErrorCode" "error-code" 0x3f 0 u16
  | opmodeDisplay => input "enableOpmodeDisplay" "opmode-display" 0x61 0 s8
  | positionDemand => input "enablePositionDemand" "position-demand" 0x62 0 s32
  | probeStatus => input "enableProbeStatus" "probe-status" 0xb9 0 u16
  | torqueDemand => input "enableTorqueDemand" "torque-demand" 0x74 0 s16
  | velocityDemand => input "enableVelocityDemand" "velocity-demand" 0x6b 0 s32
  | digitalInput => input "enableDigitalInput" "digital-input" 0xfd 0 u32
  | opmode => output "enableOpmode" "opmode" 0x60 0 s8
  | profileVelocity => output "enableProfileVelocity" "profile-velocity" 0x81 0 u32
  | targetPosition => output "enableTargetPosition" "target-position" 0x7a 0 s32
  | targetTorque => output "enableTargetTorque" "target-torque" 0x71 0 s16
  | targetVelocity => output "enableTargetVelocity" "target-velocity" 0xff 0 s32
  | targetVl => output "enableTargetVL" "target-vl" 0x42 0 s16
  | digitalOutput => output "enableDigitalOutput" "digital-output" 0xfe 1 u32
  | followingErrorTimeout =>
    service "enableFollowingErrorTimeout" "following-error-timeout" 0x66 0 u16
  | followingErrorWindow => service "enableFollowingErrorWindow" "following-error-window" 0x65 0 u32
  | homeAccel => service "enableHomeAccel" "home-accel" 0x9a 0 u32
  | homeMethod => service "enableHomeMethod" "home-method" 0x98 0 s8
  | homeVelocityFast => service "enableHomeVelocityFast" "home-velocity-fast" 0x99 1 u32
  | homeVelocitySlow => service "enableHomeVelocitySlow" "home-velocity-slow" 0x99 2 u32
  | interpolationTimePeriod =>
    service "enableInterpolationTimePeriod" "interpolation-time-period" 0xc2 1 u8
  | maximumAcceleration => service "enableMaximumAcceleration" "maximum-acceleration" 0xc5 0 u32
  | maximumCurrent => service "enableMaximumCurrent" "maximum-current" 0x73 0 u16
  | maximumDeceleration => service "enableMaximumDeceleration" "maximum-deceleration" 0xc6 0 u32
  | maximumMotorRpm => service "enableMaximumMotorRPM" "maximum-motor-rpm" 0x80 0 u32
  | maximumSlippage => service "enableMaximumSlippage" "maximum-slippage" 0xf8 0 s32
  | maximumTorque => service "enableMaximumTorque" "torque-maximum" 0x72 0 u16
  | motionProfile => service "enableMotionProfile" "motion-profile" 0x86 0 s16
  | motorRatedCurrent => service "enableMotorRatedCurrent" "motor-rated-current" 0x75 0 u32
  | motorRatedTorque => service "enableMotorRatedTorque" "motor-rated-torque" 0x76 0 u32
  | polarity => service "enablePolarity" "polarity" 0x7e 0 u8
  | positioningTime => service "enablePositioningTime" "positioning-time" 0x68 0 u16
  | positioningWindow => service "enablePositioningWindow" "positioning-window" 0x67 0 u32
  | profileAccel => service "enableProfileAccel" "profile-accel" 0x83 0 u32
  | profileDecel => service "enableProfileDecel" "profile-decel" 0x84 0 u32
  | profileEndVelocity => service "enableProfileEndVelocity" "profile-end-velocity" 0x82 0 u32
  | profileMaxVelocity => service "enableProfileMaxVelocity" "profile-max-velocity" 0x7f 0 u32
  | torqueProfileType => service "enableTorqueProfileType" "torque-profile-type" 0x88 0 s16
  | torqueSlope => service "enableTorqueSlope" "torque-slope" 0x87 0 u32
  | velocityErrorTime => service "enableVelocityErrorTime" "velocity-error-time" 0x6e 0 u16
  | velocityErrorWindow => service "enableVelocityErrorWindow" "velocity-error-window" 0x6d 0 u16
  | velocitySensorSelector =>
    service "enableVelocitySensorSelector" "velocity-sensor-selector" 0x6a 0 s16
  | velocityThresholdTime =>
    service "enableVelocityThresholdTime" "velocity-threshold-time" 0x70 0 u16
  | velocityThresholdWindow =>
    service "enableVelocityThresholdWindow" "velocity-threshold-window" 0x6f 0 u16
  | vlAccel => service "enableVLAccel" "vl-accel" 0x48 0 u32
  | vlDecel => service "enableVLDecel" "vl-decel" 0x49 0 u32
  | vlMaximum => service "enableVLMaximum" "vl-maximum" 0x46 2 s16
  | vlMinimum => service "enableVLMinimum" "vl-minimum" 0x46 1 s16

def all : List Feature :=
  [pp, pv, tq, hm, ip, csp, csv, cst, vl, actualCurrent, actualFollowingError, actualPosition,
   actualTorque, actualVelocity, actualVelocitySensor, actualVl, actualVoltage, controlEffort,
   demandVl, errorCode, opmodeDisplay, positionDemand, probeStatus, torqueDemand, velocityDemand,
   digitalInput, opmode, profileVelocity, targetPosition, targetTorque, targetVelocity, targetVl,
   digitalOutput, followingErrorTimeout, followingErrorWindow, homeAccel, homeMethod,
   homeVelocityFast, homeVelocitySlow, interpolationTimePeriod, maximumAcceleration,
   maximumCurrent, maximumDeceleration, maximumMotorRpm, maximumSlippage, maximumTorque,
   motionProfile, motorRatedCurrent, motorRatedTorque, polarity, positioningTime,
   positioningWindow, profileAccel, profileDecel, profileEndVelocity, profileMaxVelocity,
   torqueProfileType, torqueSlope, velocityErrorTime, velocityErrorWindow,
   velocitySensorSelector, velocityThresholdTime, velocityThresholdWindow, vlAccel, vlDecel,
   vlMaximum, vlMinimum]

/-- The place of a feature in the order of all features. -/
def index (f : Feature) : Nat := f.ctorIdx

def count : Nat := 67

theorem length_all : all.length = count := rfl

theorem index_lt (f : Feature) : f.index < count := by
  cases f <;> decide

theorem getElem?_index_all (f : Feature) : all[f.index]? = some f := by
  cases f <;> rfl

theorem mem_all (f : Feature) : f ∈ all := List.mem_of_getElem? (getElem?_index_all f)

theorem index_inj {f g : Feature} : f.index = g.index ↔ f = g := by
  constructor
  · intro h
    have hf := getElem?_index_all f
    rw [h, getElem?_index_all g] at hf
    exact (Option.some.inj hf).symm
  · rintro rfl
    rfl

theorem nodup_all : all.Nodup := by decide +kernel

def configName (f : Feature) : String := f.descriptor.configName

def object? (f : Feature) : Option DriveObject := f.descriptor.object?

/-- The feature of a configuration name, whose case does not matter. -/
def ofConfigName? (name : String) : Option Feature :=
  all.find? fun f => Text.sameCaseless f.configName name

end Feature

end ServoBus
