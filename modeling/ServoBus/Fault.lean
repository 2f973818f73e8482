import ServoBus.Object
import ServoBus.Text.Quoted

/-!
# Faults

A fault says why a request was refused, with what the message about it names. The
wording is in `Reason.message` and `Fault.message` alone.
-/

namespace ServoBus

/-- Why the options of a slave cannot be used. -/
inductive Reason where
  | noChannels
  | zeroLimit
  | incrementTooLarge (increment channel first last : Nat)
  | tooManyEntries (pdo entries limit : Nat)
  | fullPdo (pdo limit : Nat)
  | tooManyPdos (pdos first : Nat)
  | sharedPdo (pdo : Nat)
  | noIdentity
deriving DecidableEq, Repr

def Reason.message : Reason → String
  | noChannels => "no channels"
  | zeroLimit => "PDO limits must be at least 1"
  | incrementTooLarge increment channel first last =>
    s!"PDO increment 0x{Text.hex 1 increment} puts channel {channel} outside " ++
      s!"0x{Text.hex 4 first}..=0x{Text.hex 4 last}"
  | tooManyEntries pdo entries limit =>
    s!"PDO 0x{Text.hex 4 pdo} needs {entries} entries, the device maps at most {limit}"
  | fullPdo pdo limit => s!"PDO 0x{Text.hex 4 pdo} holds at most {limit} entries"
  | tooManyPdos pdos first => s!"more than {pdos} PDOs needed from 0x{Text.hex 4 first}"
  | sharedPdo pdo => s!"PDO 0x{Text.hex 4 pdo} is used by two channels"
  | noIdentity => "vendor ID and product code not set"

inductive Fault where
  | syncsFull (device : String) (limit : Nat)
  | pdosFull (device : String) (limit : Nat)
  | entriesFull (device : String) (limit : Nat)
  | noCurrentSync (device : String)
  | noCurrentPdo (device : String)
  | incompleteSyncs (device : String)
  | registrationsFull (device : String) (used limit : Nat)
  | overlap (first second : ObjectAddress)
  | unknownParam (device name : String)
  | invalidParam (name value : String)
  | invalidRatio (text : String)
  | tooManyChannels (requested limit : Nat)
  | unknownFeature (name : String)
  | unknownDeviceType (name : String)
  | duplicateDeviceType (name : String)
  | duplicatePin (name : String)
  | unknownPin (name : String)
  | unknownSlave (name : String)
  | misconfigured (device : String) (reason : Reason)
  | uploadFailed (address : ObjectAddress) (abortCode : UInt32)
  | downloadFailed (address : ObjectAddress) (abortCode : UInt32)
  | uploadSize (address : ObjectAddress) (expected actual : Nat)
  | master (text : String)
deriving DecidableEq, Repr

def Fault.message : Fault → String
  | syncsFull device limit => s!"sync managers full for slave {device}: {limit} of {limit} used"
  | pdosFull device limit => s!"PDO infos full for slave {device}: {limit} of {limit} used"
  | entriesFull device limit => s!"PDO entries full for slave {device}: {limit} of {limit} used"
  | noCurrentSync device => s!"no sync manager to add a PDO to for slave {device}"
  | noCurrentPdo device => s!"no PDO to add an entry to for slave {device}"
  | incompleteSyncs device =>
    s!"sync manager configuration for slave {device} is incomplete after an earlier error"
  | registrationsFull device used limit =>
    s!"PDO entry registrations full for slave {device}: {used} of {limit} used"
  | overlap first second => s!"PDO entries {first} and {second} overlap in the process data"
  | unknownParam device name => s!"unknown modparam {name} for slave {device}"
  | invalidParam name value => s!"invalid value {Text.quote value} for modparam {name}"
  | invalidRatio text => s!"invalid ratio {Text.quote text}"
  | tooManyChannels requested limit =>
    s!"{requested} channels requested, at most {limit} are supported"
  | unknownFeature name => s!"unknown feature {name}"
  | unknownDeviceType name => s!"unknown device type {name}"
  | duplicateDeviceType name => s!"device type {name} is already registered"
  | duplicatePin name => s!"pin {name} already exists"
  | unknownPin name => s!"no pin named {name}"
  | unknownSlave name => s!"no slave named {name}"
  | misconfigured device reason =>
    s!"slave {device} is not configured correctly: {reason.message}"
  | uploadFailed address abortCode =>
    s!"SDO upload of {address} failed (abort code 0x{Text.hex 8 abortCode.toNat})"
  | downloadFailed address abortCode =>
    s!"SDO download of {address} failed (abort code 0x{Text.hex 8 abortCode.toNat})"
  | uploadSize address expected actual =>
    s!"invalid result size on SDO upload of {address}: requested {expected}, got {actual}"
  | master text => s!"master error: {text}"

end ServoBus
