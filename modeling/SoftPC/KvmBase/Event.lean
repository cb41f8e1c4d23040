import Mathlib.Data.List.Basic
import SoftPC.Lib.Types

/-!
# KvmBase/Event — the input a presentation emits

`lib/kvm-base/event_interface.h` and the key constants of `lib/base/input_interface.h`.  Two key
transitions belong to one physical key when they agree on the extended flag and on the scan code, or
on the logical key when neither has a scan code; `KeyEvent.identity` is that equivalence as a
function.
-/

namespace SoftPC

abbrev BaseKey := UInt32

/-- `BASE_KEY_SHIFT`. -/
def BaseKey.shift : BaseKey := 0x00030003
/-- `BASE_KEY_CONTROL`. -/
def BaseKey.control : BaseKey := 0x00030004
/-- `BASE_KEY_ALT`. -/
def BaseKey.alt : BaseKey := 0x00030005

/-- `BASE_KEY_FLAG_EXTENDED`. -/
def keyFlagExtended : UInt32 := 0x01

/-- `BASE_KEY_MODIFIER_CONTROL`. -/
def modifierControl : UInt8 := 0x01
/-- `BASE_KEY_MODIFIER_ALT`. -/
def modifierAlt : UInt8 := 0x02
/-- `BASE_KEY_MODIFIER_SHIFT`. -/
def modifierShift : UInt8 := 0x04

/-- `kvm_input_event.data.key`. -/
structure KeyEvent where
  scanCode : UInt16
  key : BaseKey
  flags : UInt32
  modifiers : UInt8
  pressed : Bool
  deriving DecidableEq

/-- `kvm_input_event.data.mouse`. -/
structure MouseEvent where
  deltaX : Int32
  deltaY : Int32
  absoluteX : Int32
  absoluteY : Int32
  wheelX : Int32
  wheelY : Int32
  buttons : UInt32
  relative : Bool
  deriving DecidableEq

/-- `kvm_event_type`, with the member of the union each type reads. -/
inductive InputData where
  | key (k : KeyEvent)
  | text (scalar : UInt32)
  | mouse (m : MouseEvent)
  | hotkey (identifier : List UInt8)
  | windowClose
  | inputReset
  | sourceRetired
  deriving DecidableEq

/-- `kvm_input_event`. -/
structure InputEvent where
  /-- The borrowed component handle; nothing branches on it. -/
  source : ℕ
  sourceIdentity : UInt64
  data : InputData
  deriving DecidableEq

/-- A `kvm_input_event` of type KEY. -/
structure KeyInput where
  source : ℕ
  sourceIdentity : UInt64
  key : KeyEvent
  deriving DecidableEq

/-- The event a key input is. -/
def KeyInput.toEvent (k : KeyInput) : InputEvent := ⟨k.source, k.sourceIdentity, .key k.key⟩

/-- `kvm_input_sink` and its siblings: a callback over a context of its own. -/
abbrev Sink (σ : Type*) := σ → InputEvent → Bool × σ

/-- The sink that succeeds and remembers. -/
def recording : Sink (List InputEvent) := fun log event => (true, log ++ [event])

/-- The identity of a physical key. -/
inductive KeyId where
  | scan (extended : Bool) (code : UInt16)
  | logical (extended : Bool) (key : BaseKey)
  deriving DecidableEq

namespace KeyEvent

/-- `BASE_KEY_FLAG_EXTENDED` of a transition. -/
def extended (k : KeyEvent) : Bool := k.flags &&& keyFlagExtended != 0

/-- The physical key a transition belongs to. -/
def identity (k : KeyEvent) : KeyId :=
  if k.scanCode ≠ 0 then .scan k.extended k.scanCode else .logical k.extended k.key

/-- The comparison of two transitions in `kvm_hotkey_same_key` and
`emulator_session_forget_pressed`. -/
def sameKey (a b : KeyEvent) : Bool :=
  a.flags &&& keyFlagExtended == b.flags &&& keyFlagExtended &&
    if a.scanCode != 0 || b.scanCode != 0 then a.scanCode == b.scanCode else a.key == b.key

theorem extended_eq_iff (a b : KeyEvent) :
    a.extended = b.extended ↔ a.flags &&& keyFlagExtended = b.flags &&& keyFlagExtended := by
  have hbit : ∀ f : UInt32, f &&& keyFlagExtended = 0 ∨ f &&& keyFlagExtended = 1 := by
    intro f
    have hnat : (f &&& keyFlagExtended).toNat = f.toNat % 2 := by
      simp [keyFlagExtended, UInt32.toNat_and, Nat.and_one_is_mod]
    rcases Nat.mod_two_eq_zero_or_one f.toNat with h | h
    · exact .inl (UInt32.toNat.inj (hnat.trans h))
    · exact .inr (UInt32.toNat.inj (hnat.trans h))
  unfold extended
  rcases hbit a.flags with ha | ha <;> rcases hbit b.flags with hb | hb <;> simp [ha, hb]

/-- **Comparing two transitions compares their physical keys.** -/
theorem sameKey_iff (a b : KeyEvent) : a.sameKey b = true ↔ a.identity = b.identity := by
  have hext := extended_eq_iff a b
  unfold sameKey identity
  by_cases ha : a.scanCode = 0 <;> by_cases hb : b.scanCode = 0
  · simp [ha, hb, ← hext]
  · simp [ha, hb, Ne.symm hb]
  · simp [ha, hb]
  · simp [ha, hb, ← hext]

end KeyEvent

/-- The physical key and the direction of a key transition. -/
def InputEvent.transition (event : InputEvent) : Option (KeyId × Bool) :=
  match event.data with
  | .key k => some (k.identity, k.pressed)
  | _ => none

end SoftPC
