import SoftPC.Keymouse.BiosBuffer

/-!
# Keymouse/KeyboardInt — a scan code of the keyboard, and INT 16h

    port 60h ─▸ INT 15h AH 4Fh ─▸ check_indicators ─▸ shift keys ─▸ translation ─▸ exit

`keymouse/keybd_io.c`.  The many exits of `keyboard_int` are told apart as `Exit`, and are taken after the scan code
has been decoded.  The ports that the handler itself writes are noted with `re_entry_level`, so that what an interrupt
inside another writes is not taken for the other's.
-/

namespace SoftPC.BiosKeyboard

/-! ## The BIOS data area and the ports -/

/-- `kb_flag`, `kb_flag_1`, `alt_input`, `bios_break`, `kb_flag_2`. -/
def kbFlagAt : ℕ := 0x17
def kbFlag1At : ℕ := 0x18
def altInputAt : ℕ := 0x19
def biosBreakAt : ℕ := 0x71
def kbFlag2At : ℕ := 0x97

/-- A port written. -/
structure Out where
  level : ℤ
  port : BitVec 16
  value : BitVec 8
  deriving DecidableEq

/-- The BIOS data area, `re_entry_level`, and the ports written, latest first. -/
structure Bios where
  area : Area
  level : ℤ
  log : List Out

/-- What runs on the recursive CPU: INT 15h, which is given AX and leaves AL and the carry flag, INT 1Bh and INT 05h;
and what goes on while `send_data`, `PAUSE` and INT 16h wait. -/
structure Guest where
  int15 : BitVec 16 → Bios → BitVec 8 × Bool × Bios
  int1b : Bios → Bios
  int05 : Bios → Bios
  reply : Bios → Bios
  hold : Bios → Bios
  poll : Bios → Bios
  reboot : Bios → Bios

/-- The tables that only give characters: `K8`, `K10` and `K11` by scan code, the first of which is 1, and `K30`. -/
structure Tables where
  ctlN : ℕ → BitVec 8
  lowercase : ℕ → BitVec 8
  uppercase : ℕ → BitVec 8
  altTable : ℕ → BitVec 8

/-- `K6` and `K7`: the shift keys and their masks. -/
def shiftKeys : List (BitVec 8) := [0x52, 0x3a, 0x45, 0x46, 0x38, 0x1d, 0x2a, 0x36]
def shiftMasks : List (BitVec 8) := [0x80, 0x40, 0x20, 0x10, 0x08, 0x04, 0x02, 0x01]

/-- The mask of a shift key. -/
def shiftMask (code : BitVec 8) : Option (BitVec 8) := (shiftKeys.zip shiftMasks).lookup code

namespace Bios

variable (g : Guest) (t : Tables) (s : Bios)

def flag : BitVec 8 := s.area kbFlagAt
def flag1 : BitVec 8 := s.area kbFlag1At
def flag2 : BitVec 8 := s.area kbFlag2At
def flag3 : BitVec 8 := s.area kbFlag3At

/-- `sas_store`. -/
def store (o : ℕ) (v : BitVec 8) : Bios := { s with area := Function.update s.area o v }

/-- Bits set, and bits cleared. -/
def raise (o : ℕ) (mask : BitVec 8) : Bios := s.store o (s.area o ||| mask)
def clear (o : ℕ) (mask : BitVec 8) : Bios := s.store o (s.area o &&& ~~~mask)

def outb (port : BitVec 16) (value : BitVec 8) : Bios := { s with log := ⟨s.level, port, value⟩ :: s.log }

/-- `outb(0x20, 0x20)`; `KEYBA_STATUS_CMD` with `DIS_KBD` and with `ENA_KBD`. -/
def eoi : Bios := s.outb 0x20 0x20
def disable : Bios := s.outb 0x64 0xad
def enable : Bios := s.outb 0x64 0xae

def k26a : Bios := s.eoi.enable

def k26 : Bios := (s.clear kbFlag3At marks).k26a

/-! ## The keyboard's lights -/

/-- The `while` of `send_data`, on `wait_retry`: the flags as last read. -/
def awaitReply : ℕ → BitVec 8 → Bios → BitVec 8 × Bios
  | 0, var, s => (var, s)
  | wait + 1, var, s =>
    if var &&& 0xb0 = 0 ∧ 0 < wait then
      let s := g.reply s
      awaitReply wait s.flag2 s
    else (var, s)

/-- The `do` of `send_data`, on `resend_retry`. -/
def sendTries (data : BitVec 8) : ℕ → BitVec 8 → Bios → BitVec 8 × Bios
  | 0, var, s => (var, s)
  | retry + 1, var, s =>
    let resend := var &&& 0x20 ≠ 0
    let var := var &&& ~~~0xb0
    let s := s.store kbFlag2At var
    let s := if resend then s.outb 0x60 data else s
    let o := awaitReply g 5 var s
    if o.1 &&& 0x10 ≠ 0 then o else sendTries data retry (o.1 ||| 0x80) o.2

def sendData (data : BitVec 8) : Bios :=
  let o := sendTries g data 3 (s.flag2 ||| 0x20) s
  if o.1 &&& 0x80 ≠ 0 then o.2.store kbFlag2At o.1 else o.2

/-- The lights that `kb_flag` asks for. -/
def indicators : BitVec 8 := (s.flag &&& 0x70) >>> 4

/-- The lights differ, and no update is in progress. -/
def LightsDue : Prop := (s.indicators ^^^ s.flag2) &&& 0x07 ≠ 0 ∧ s.flag2 &&& 0x40 = 0

instance : Decidable s.LightsDue := by unfold LightsDue; infer_instance

def checkIndicators (eoi : Bool) : Bios :=
  if s.LightsDue then
    let lights := s.indicators
    let s := s.store kbFlag2At (s.flag2 ||| 0x40)
    let s := if eoi then s.eoi else s
    let s := s.sendData g 0xed
    let var := s.flag2 &&& 0xf8 ||| lights
    let s := s.store kbFlag2At var
    let s :=
      if var &&& 0x80 = 0 then
        let s := s.sendData g lights
        if s.flag2 &&& 0x80 ≠ 0 then s.sendData g 0xf4 else s
      else s.sendData g 0xf4
    s.clear kbFlag2At 0xc0
  else s

/-! ## The exits of `keyboard_int` -/

/-- The exits. -/
inductive Exit where
  | k26
  | k26a
  | put (s v : BitVec 8)
  | entry (digit : ℕ)
  | sysReq (ax : BitVec 16)
  | pause
  | reboot
  | ctrlBreak
  | printScreen
  deriving DecidableEq

/-- `CHECK_AND_PUT_IN_BUFFER`. -/
def checkAndPut (s v : BitVec 8) : Exit := if s = 0xff ∨ v = 0xff then .k26 else .put s v

/-- `PutInBufferFunc`, before `exit_from_kbd_int`; a full buffer beeps. -/
def putInBuffer (c v : BitVec 8) : Bios :=
  let o := s.area.insert (c ++ v)
  if o.1 then
    let s := { s with area := o.2 }.eoi
    let s := (g.int15 0x9102 s).2.2
    s.enable.clear kbFlag3At marks
  else s.k26a

/-- The `do` of `PAUSE`. -/
def holdOn : ℕ → Bios → Option Bios
  | 0, _ => none
  | fuel + 1, s =>
    let s := g.hold s
    if s.flag1 &&& 0x08 ≠ 0 then holdOn fuel s else some s

def pause (fuel : ℕ) : Option Bios := (holdOn g fuel ((s.raise kbFlag1At 0x08).enable.eoi)).map enable

/-- What is done on an exit, before `exit_from_kbd_int`. -/
def leave (fuel : ℕ) : Exit → Option Bios
  | .k26 => some s.k26
  | .k26a => some s.k26a
  | .put c v => some (s.putInBuffer g c v)
  | .entry digit => some (s.store altInputAt (s.area altInputAt * 10 + BitVec.ofNat 8 digit)).k26
  | .sysReq ax => some (g.int15 ax s.k26a).2.2
  | .pause => s.pause g fuel
  | .reboot => some (g.reboot s)
  | .ctrlBreak =>
    let s := { s with area := s.area.storeWord tailAt s.area.head }
    let s := (s.store biosBreakAt 0x80).enable
    some ((g.int1b s).putInBuffer g 0 0)
  | .printScreen => some ((g.int05 s.enable.eoi).clear kbFlag3At marks)

/-! ## What a key is translated to -/

/-- `KBX` is off, or the last code was the E0 marker. -/
def markedOrOld : Bool := s.flag3 &&& 0x10 = 0 ∨ s.flag3 &&& 0x02 ≠ 0

def e0 : Bool := s.flag3 &&& 0x02 ≠ 0
def shifted : Bool := s.flag &&& 0x03 ≠ 0

/-- The keypad gives digits. -/
def numeric : Bool := s.flag &&& 0x23 = 0x20 ∨ (s.flag &&& 0x20 = 0 ∧ s.flag &&& 0x03 ≠ 0)

/-- Where a code stands in `alt_table`, from `first` to before `last`. -/
def altIndex (first last : ℕ) (code : BitVec 8) : Option ℕ :=
  (List.range' first (last - first)).find? fun i => t.altTable i = code

/-- The code, or the E0 marker. -/
def scanOrMarker (code : BitVec 8) : BitVec 8 := if s.e0 then 0xe0 else code

/-- `chr`, of the pseudo scan codes. -/
def pseudo : BitVec 8 := if s.e0 then 0xe0 else 0

/-- A character of `uppercase` or `lowercase`, with its code. -/
def letter (table : ℕ → BitVec 8) (code : BitVec 8) : Exit :=
  checkAndPut (s.scanOrMarker code) (table code.toNat)

/-- …and as a pseudo scan code. -/
def pseudoCode (table : ℕ → BitVec 8) (code : BitVec 8) : Exit := checkAndPut (table code.toNat) s.pseudo

/-- In alternate shift. -/
def altKey (code : BitVec 8) : Exit :=
  if s.flag &&& 0x04 ≠ 0 ∧ code = 83 then .reboot
  else if code = 57 then .put code 0x20
  else if code = 15 then .put 0xa5 0
  else if code = 74 ∨ code = 78 then .put code 0xf0
  else match altIndex t 0 10 code with
  | some i => if s.e0 then .put (code + 80) 0 else .entry i
  | none =>
    if (altIndex t 10 36 code).isSome then .put code 0
    else if code < 2 then checkAndPut code 0xf0
    else if code < 14 then .put (code + 118) 0
    else if code = 87 ∨ code = 88 then .put (code + 52) 0
    else if s.e0 then
      if code = 28 then .put 0xa6 0
      else if code = 83 then .put (code + 80) 0
      else if code = 53 then .put 0xa4 0
      else .k26
    else if code < 59 then checkAndPut code 0xf0
    else if code ≤ 68 then .put (code + 45) 0
    else .k26

/-- In control shift. -/
def ctlKey (code : BitVec 8) : Exit :=
  if code = 70 ∧ s.markedOrOld then .ctrlBreak
  else if s.flag3 &&& 0x10 = 0 ∧ code = 69 then .pause
  else if code = 55 ∧ s.markedOrOld then .put 0x72 0
  else if code ≠ 55 ∧ code ≠ 15 ∧ code = 53 ∧ s.e0 then .put 0x95 0
  else if code ≠ 55 ∧ code ≠ 15 ∧ code < 59 then s.letter t.ctlN code
  else s.pseudoCode t.ctlN code

/-- The end of the translation. -/
def lastKey (code : BitVec 8) : Exit := if code = 76 then .put code 0xf0 else s.pseudoCode t.lowercase code

/-- A code up to `CAPS_KEY`. -/
def lowKey (code : BitVec 8) : Exit :=
  if code = 55 then
    if s.flag3 &&& 0x12 = 0x12 ∨ (s.flag3 &&& 0x10 = 0 ∧ s.shifted) then .printScreen
    else s.letter t.lowercase code
  else if (¬s.e0 ∨ code ≠ 53) ∧
      (if (altIndex t 10 36 code).isSome ∧ s.flag &&& 0x40 ≠ 0 then ¬s.shifted else s.shifted) then
    s.letter t.uppercase code
  else s.letter t.lowercase code

/-- A code above `F10_KEY`, not of F11 or F12. -/
def highKey (code : BitVec 8) : Exit :=
  if 83 < code then
    if code = 86 then s.letter (if s.shifted then t.uppercase else t.lowercase) code
    else if code = 76 ∧ ¬s.shifted then .put code 0xf0
    else s.pseudoCode t.uppercase code
  else if code = 74 ∨ code = 78 ∨ (¬s.e0 ∧ s.numeric) then s.letter t.uppercase code
  else s.lastKey t code

/-- From `label2` on. -/
def translate (code : BitVec 8) : Exit :=
  if 88 < code then .k26
  else if s.flag &&& 0x08 ≠ 0 ∧ (s.flag3 &&& 0x10 = 0 ∨ s.flag1 &&& 0x04 = 0) then s.altKey t code
  else if s.flag &&& 0x04 ≠ 0 then s.ctlKey t code
  else if code ≤ 58 then s.lowKey t code
  else if 68 < code ∧ code ≠ 87 ∧ code ≠ 88 then s.highKey t code
  else if s.shifted then s.pseudoCode t.uppercase code
  else s.lastKey t code

/-! ## What a scan code does -/

/-- From `label1` on. -/
def testHold (code : BitVec 8) : Bios × Exit :=
  if code &&& 0x80 ≠ 0 then (s, .k26)
  else if s.flag1 &&& 0x08 ≠ 0 then (if code ≠ 69 then s.clear kbFlag1At 0x08 else s, .k26)
  else (s, s.translate t code)

/-- The bits of a shift key that is released. -/
def releaseBits (mask : BitVec 8) : Bios :=
  let s := s.clear kbFlagAt mask
  if 0x04 ≤ mask then
    let s := if s.e0 then s.clear kbFlag3At mask else s.clear kbFlag1At (mask >>> 2)
    s.raise kbFlagAt (((s.flag >>> 2 ||| s.flag1) <<< 2) &&& 0x0c)
  else s

/-- A shift key is released. -/
def breakShift (mask code : BitVec 8) : Bios × Exit :=
  if 0x10 ≤ mask then (s.clear kbFlag1At mask, .k26)
  else
    let s := s.releaseBits mask
    let char := s.area altInputAt
    if code ≠ 0xb8 ∨ char = 0 then (s, .k26) else (s.store altInputAt 0, .put 0 char)

/-- A shift key is pressed that sets its bit. -/
def makeShift (mask : BitVec 8) : Bios × Exit :=
  let s := s.raise kbFlagAt mask
  if mask &&& 0x0c ≠ 0 then
    (if s.e0 then s.raise kbFlag3At mask else s.raise kbFlag1At (mask >>> 2), .k26)
  else (s, .k26)

/-- The bit of a shift key is toggled. -/
def toggle (mask : BitVec 8) : Bios :=
  let s := s.raise kbFlag1At mask
  let s := s.store kbFlagAt (s.flag ^^^ mask)
  if mask &&& 0x70 ≠ 0 then s.checkIndicators g true else s

/-- A shift key is pressed that toggles its bit. -/
def makeToggle (mask code : BitVec 8) : Bios × Exit :=
  if s.flag &&& 0x04 = 0 ∧ ¬(code = 82 ∧ (s.flag &&& 0x08 ≠ 0 ∨ (¬s.e0 ∧ s.numeric))) then
    if mask &&& s.flag1 ≠ 0 then (s, .k26)
    else
      let s := s.toggle g mask
      if code = 82 then (s, s.translate t code) else (s, .k26)
  else s.testHold t code

/-- What a marker before the code, or `SYS_KEY`, decides. -/
def marked (last code : BitVec 8) : Option (Bios × Exit) :=
  let key := code &&& 0x7f
  if last &&& 0x02 ≠ 0 then
    if key = 0x2a ∨ key = 0x36 then some (s, .k26) else none
  else if last &&& 0x01 ≠ 0 then
    if key = 0x38 ∨ key = 0x1d ∨ key = 0x2a ∨ key = 0x36 then some (s, .k26a)
    else if key = 69 then
      if code &&& 0x80 ≠ 0 ∨ s.flag1 &&& 0x08 ≠ 0 then some (s, .k26) else some (s, .pause)
    else none
  else if key = 84 then
    if code &&& 0x80 ≠ 0 then some (s.clear kbFlag1At 0x04, .sysReq 0x8501)
    else if s.flag1 &&& 0x04 ≠ 0 then some (s, .k26)
    else some (s.raise kbFlag1At 0x04, .sysReq 0x8500)
  else none

/-- A code that is a key's. -/
def scan (last code : BitVec 8) : Bios × Exit :=
  match s.marked last code with
  | some o => o
  | none =>
    match shiftMask (code &&& 0x7f) with
    | none => s.testHold t code
    | some mask =>
      if code &&& 0x80 ≠ 0 then s.breakShift mask code
      else if mask < 0x10 then s.makeShift mask
      else s.makeToggle g t mask code

/-- A READ ID is in progress. -/
def readId (last code : BitVec 8) : Bios × Exit :=
  if s.flag &&& 0x80 ≠ 0 then
    let s := if code = 0xab then s.raise kbFlag3At 0x40 else s
    (s.clear kbFlag3At 0x80, .k26)
  else
    let s := s.clear kbFlag3At 0x40
    if code = 0x54 then (s.raise kbFlag3At 0x10, .k26)
    else if code = 0x41 then
      let s := if last &&& 0x20 ≠ 0 then (s.raise kbFlagAt 0x20).checkIndicators g true else s
      (s.raise kbFlag3At 0x10, .k26)
    else (s, .k26)

/-- A scan code that INT 15h has left, up to the exit. -/
def receive (code : BitVec 8) : Bios × Exit :=
  if code = 0xfe then (s.raise kbFlag2At 0x20, .k26)
  else if code = 0xfa then (s.raise kbFlag2At 0x10, .k26)
  else
    let s := s.checkIndicators g false
    if code = 0xff then (s, .k26a)
    else if s.flag3 &&& 0xc0 ≠ 0 then s.readId g s.flag3 code
    else if code = 0xe0 then (s.raise kbFlag3At 0x12, .k26a)
    else if code = 0xe1 then (s.raise kbFlag3At 0x11, .k26a)
    else s.scan g t s.flag3 code

/-- The start of `keyboard_int`, to INT 15h AH 4Fh. -/
def enter (code : BitVec 8) : BitVec 8 × Bool × Bios :=
  g.int15 (0x4f#8 ++ code) { s with level := s.level + 1 }.disable

/-- `keyboard_int`, up to the exit. -/
def decode (code : BitVec 8) : Bios × Exit :=
  let r := s.enter g code
  if r.2.1 then r.2.2.receive g t r.1 else (r.2.2, .k26)

def exitFromKbdInt : Bios := { s with level := s.level - 1 }

/-- `keyboard_int`, unless a pause goes on. -/
def keyboardInt (fuel : ℕ) (code : BitVec 8) : Option Bios :=
  let o := s.decode g t code
  (o.1.leave g fuel o.2).map exitFromKbdInt

/-- `keyboard_post`, of the keyboard variables. -/
def post (s : Bios) : Bios :=
  ((((({ s with area := s.area.keyboardPost }.store kbFlagAt 0x20).store kbFlag1At 0).store kbFlag2At 2).store
    kbFlag3At 0x10).store altInputAt 0)

/-! ## INT 16h -/

/-- The registers of a call of INT 16h. -/
structure Regs where
  ax : BitVec 16
  bx : BitVec 16
  cx : BitVec 16

/-- AH and AL. -/
def Regs.ah (r : Regs) : BitVec 8 := r.ax.extractLsb' 8 8
def Regs.al (r : Regs) : BitVec 8 := r.ax.setWidth 8

/-- The `do` of AH 00h and the `while` of AH 10h, on the recursive CPU. -/
def awaitKey : ℕ → Bios → Option Bios
  | 0, _ => none
  | fuel + 1, s =>
    let s := g.poll s
    if s.area.tail = s.area.head then awaitKey fuel s else some s

/-- The word at the head is taken, awaited first if there is none. -/
def takeKey (fuel : ℕ) : Option (BitVec 16 × Bios) :=
  (if s.area.tail = s.area.head then awaitKey g fuel s else some s).map fun s =>
    (s.area.word s.area.head.toNat, { s with area := s.area.dropHead })

/-- The `do` of AH 00h. -/
def readStd : ℕ → Bios → Option (BitVec 16 × Bios)
  | 0, _ => none
  | fuel + 1, s =>
    match (s.checkIndicators g false).takeKey g fuel with
    | none => none
    | some (ax, s) => if (translateStd ax).1 then readStd fuel s else some ((translateStd ax).2, s)

/-- The `do` of AH 01h: AX, the zero flag. -/
def peekStd : ℕ → Bios → Option (BitVec 16 × Bool × Bios)
  | 0, _ => none
  | fuel + 1, s =>
    let s := s.checkIndicators g true
    let ax := s.area.word s.area.head.toNat
    if s.area.tail = s.area.head then some (ax, true, s)
    else if (translateStd ax).1 then peekStd fuel { s with area := s.area.dropHead }
    else some ((translateStd ax).2, false, s)

/-- INT 15h AH 90h, if there is no key to read. -/
def waitCall : Bios := if s.area.tail = s.area.head then (g.int15 0x9002 s).2.2 else s

/-- `keyboard_io`: AX, the zero flag. -/
def keyboardIo (fuel : ℕ) (r : Regs) : Option (BitVec 16 × Bool × Bios) :=
  if r.ah = 0x00 then (readStd g fuel (s.waitCall g)).map fun o => (o.1, false, o.2)
  else if r.ah = 0x01 then peekStd g fuel s
  else if r.ah = 0x02 then some (0#8 ++ s.flag, false, s)
  else if r.ah = 0x03 then
    if r.al = 5 ∧ r.bx &&& 0xfce0 = 0 then
      some (r.ax, false, (s.sendData g 0xf3).sendData g (r.bx.extractLsb' 8 8 <<< 5 ||| r.bx.setWidth 8))
    else some (r.ax, false, s)
  else if r.ah = 0x05 then
    let o := s.area.insert r.cx
    some (0#8 ++ (if o.1 then 0#8 else 1#8), false, { s with area := o.2 })
  else if r.ah = 0x10 then
    (((s.waitCall g).checkIndicators g false).takeKey g fuel).map fun o => (translateExt o.1, false, o.2)
  else if r.ah = 0x11 then
    let s := s.checkIndicators g true
    let ax := s.area.word s.area.head.toNat
    if s.area.tail = s.area.head then some (ax, true, s) else some (translateExt ax, false, s)
  else if r.ah = 0x12 then
    some ((((s.flag1 &&& 0x04) <<< 5) ||| (s.flag1 &&& 0x73) ||| (s.flag3 &&& 0x0c)) ++ s.flag, false, s)
  else some ((r.ah - 0x12) ++ r.al, false, s)

end Bios

end SoftPC.BiosKeyboard
