import SoftPC.Compat.SnapshotStream
import Mathlib.Data.List.FinRange

/-!
# Compat/DeviceArchive — the devices' section of a snapshot

`compat/devices/archive.c`.  The state of a device is written by a table of its fields — the name,
the width and the number of elements of each — and read back by the same table.  The event queues
come first, with as many entries as they have.

`unsigned long` has 32 bits on the hosts this is built for, so that the writer's check of a queue word
never fails there; a handle, which has 64, is cut off.
-/

namespace SoftPC.Snapshot

open Decoder

/-! ## Tables -/

/-- `softpc_device_wire_kind`. -/
inductive Kind where
  | u8 | u16 | u32 | u64

/-- An element of a field. -/
def Kind.Elem : Kind → Type
  | .u8 => UInt8
  | .u16 => BitVec 16
  | .u32 => BitVec 32
  | .u64 => BitVec 64

/-- `softpc_device_wire_field`. -/
structure Field where
  name : String
  kind : Kind
  count : ℕ

abbrev Table := List Field

/-- The object of a table: for every field, its elements. -/
def Record (table : Table) : Type := ∀ i : Fin table.length, List (table.get i).kind.Elem

def writeElems : (kind : Kind) → List kind.Elem → List UInt8
  | .u8, bytes => bytes
  | .u16, words => words.flatMap writeU16
  | .u32, words => words.flatMap writeU32
  | .u64, words => words.flatMap writeU64

def readElems : (kind : Kind) → ℕ → Reader (List kind.Elem)
  | .u8, count => cells count
  | .u16, count => many readU16 count
  | .u32, count => many readU32 count
  | .u64, count => many readU64 count

def zeroElems : (kind : Kind) → ℕ → List kind.Elem
  | .u8, count => List.replicate count (0 : UInt8)
  | .u16, count => List.replicate count (0 : BitVec 16)
  | .u32, count => List.replicate count (0 : BitVec 32)
  | .u64, count => List.replicate count (0 : BitVec 64)

def deviceWriteMap (table : Table) (object : Record table) : List UInt8 :=
  writeFields (fun i => writeElems (table.get i).kind) (List.finRange table.length) object

def deviceReadMap (table : Table) (object : Record table) : Reader (Record table) :=
  readFields (fun i => readElems (table.get i).kind (table.get i).count)
    (List.finRange table.length) object

/-- Every field has as many elements as the table says. -/
def Record.Sized {table : Table} (object : Record table) : Prop :=
  ∀ i, (object i).length = (table.get i).count

theorem pairs_elems (kind : Kind) (count : ℕ) :
    Pairs (readElems kind count) (writeElems kind) fun elems => elems.length = count := by
  have hmany {w : ℕ} {read : Reader (BitVec w)} {write : BitVec w → List UInt8}
      (h : Pairs read write fun _ => True) :
      Pairs (many read count) (fun words => words.flatMap write) fun words => words.length = count :=
    (h.many count).congr (fun _ => ⟨fun hl => ⟨hl, fun _ _ => trivial⟩, And.left⟩) fun _ _ => rfl
  cases kind with
  | u8 => exact Pairs.cells count
  | u16 => exact hmany pairs_u16
  | u32 => exact hmany pairs_u32
  | u64 => exact hmany pairs_u64

theorem zeroElems_length (kind : Kind) (count : ℕ) : (zeroElems kind count).length = count := by
  cases kind <;> exact List.length_replicate

/-- **A table** reads what it writes. -/
theorem pairs_map (table : Table) (object : Record table) :
    Pairs (deviceReadMap table object) (deviceWriteMap table) Record.Sized :=
  Pairs.fields (fun i => pairs_elems (table.get i).kind (table.get i).count)
    (List.nodup_finRange _) (List.mem_finRange) object

/-- The bytes of an element. -/
def Kind.bytes : Kind → ℕ
  | .u8 => 1
  | .u16 => 2
  | .u32 => 4
  | .u64 => 8

/-- … and of a table's object. -/
def tableBytes (table : Table) : ℕ :=
  ((List.finRange table.length).map fun i => (table.get i).count * (table.get i).kind.bytes).sum

theorem writeElems_length (kind : Kind) (elems : List kind.Elem) :
    (writeElems kind elems).length = elems.length * kind.bytes := by
  cases kind with
  | u8 => exact (Nat.mul_one _).symm
  | u16 => exact flatMap_length (writeWord_length 2) elems
  | u32 => exact flatMap_length (writeWord_length 4) elems
  | u64 => exact flatMap_length (writeWord_length 8) elems

theorem deviceWriteMap_length {table : Table} {object : Record table} (h : object.Sized) :
    (deviceWriteMap table object).length = tableBytes table := by
  simp only [deviceWriteMap, writeFields, List.length_flatMap, writeElems_length, h _, tableBytes]

/-! ## The devices -/

section Tables

private abbrev u8 (name : String) (count : ℕ := 1) : Field := ⟨name, .u8, count⟩
private abbrev u16 (name : String) (count : ℕ := 1) : Field := ⟨name, .u16, count⟩
private abbrev u32 (name : String) (count : ℕ := 1) : Field := ⟨name, .u32, count⟩
private abbrev u64 (name : String) (count : ℕ := 1) : Field := ⟨name, .u64, count⟩

def dmaFields : Table :=
  [u8 "base_address" 16, u8 "base_count" 16, u8 "current_address" 16, u8 "current_count" 16,
   u8 "temporary_address" 16, u8 "temporary_count" 16, u8 "status" 2, u8 "command" 2,
   u8 "temporary" 2, u8 "mode" 8, u8 "mask" 2, u8 "request" 2, u32 "first_last" 2, u8 "page" 16]

def picAdapterFields : Table :=
  [u32 "master", u8 "irr", u8 "isr", u8 "imr", u8 "ssr", u16 "base", u16 "hipri", u16 "mode",
   u32 "count" 8, u32 "interrupt_line", u32 "cpu_interrupt", u32 "callback_parameter" 8,
   u32 "isr_depth" 8, u32 "isr_progress" 32, u32 "isr_time_decay" 24]

def picFields : Table :=
  [u32 "iret_hooks_enabled", u16 "iret_hook_mask", u16 "iret_hook_active"]

def cmosFields : Table :=
  [u8 "bytes" 64, u32 "selected_index", u32 "data_mode_yes", u32 "twenty4_hour_clock",
   u32 "reset_alarm", u32 "rtc_int_enabled", u32 "cmos_count", u32 "host_time_valid",
   u32 "host_time" 9, u64 "user_time", u32 "periodic_milliseconds", u64 "periodic_event_handle"]

def floppyHostFields : Table :=
  [u32 "drive_type" 2]

def fdcFields : Table :=
  [u8 "command" 9, u8 "result" 7, u8 "sense" 12, u8 "ndma" 8192, u8 "status",
   u8 "current_command", u8 "interrupt_line", u8 "dor", u8 "drive_selected",
   u8 "interrupt_pending", u8 "busy", u8 "ndma_enabled", u32 "command_count", u32 "result_count",
   u32 "ndma_count", u32 "ndma_sector_size"]

def hddDriveFields : Table :=
  [u32 "drive_id", u32 "max_head", u32 "max_cylinder", u32 "max_sector", u32 "sectors_per_track",
   u32 "bytes_per_cylinder", u32 "bytes_per_track", u32 "wired_up", u32 "current_offset"]

def hddFields : Table :=
  [u8 "taskfile" 10, u16 "sector" 256, u8 "fixed_disk_register", u8 "digital_input_register",
   u8 "sector_index", u32 "selected_drive", u32 "active_command"]

def ppiFields : Table :=
  [u8 "register_value", u8 "gate_2_was_low", u8 "speaker_data_was_low"]

def inportMouseFields : Table :=
  [u32 "button_left", u32 "button_right", u32 "delta_x", u32 "delta_y", u16 "data_1",
   u16 "data_2", u16 "status", u16 "last_button_left", u16 "last_button_right", u16 "mode",
   u16 "address", u32 "timer_handle", u32 "id_toggle"]

def keyboardFields : Table :=
  [u16 "fifo" 48, u16 "set_3_key_state" 127, u32 "key_down_count" 127, u32 "held_key" 16,
   u32 "held_type" 16, u32 "fifo_count", u32 "sent_overrun", u32 "anomalous_index",
   u32 "anomalous_size", u32 "anomalous_key", u32 "anomalous_active", u32 "held_count",
   u32 "scan_set", u32 "repeat_delay_target", u32 "repeat_target", u32 "repeat_delay_count",
   u32 "repeat_count", u32 "typematic_key", u32 "input_port_value", u32 "typematic_key_valid",
   u32 "waiting_for_next_code", u32 "waiting_for_next_8042_code", u32 "num_lock_on",
   u32 "shift_on", u32 "left_shift_on", u32 "right_shift_on", u32 "ctrl_on", u32 "left_ctrl_on",
   u32 "right_ctrl_on", u32 "alt_on", u32 "left_alt_on", u32 "right_alt_on",
   u32 "waiting_for_upcode", u32 "next_code_sequence", u32 "next_8042_sequence",
   u32 "set_3_key_type_change_destination", u32 "translating", u32 "keyboard_disabled",
   u32 "interrupt_enabled", u32 "output_full", u32 "pending_8042", u32 "interface_disabled",
   u32 "scanning_discontinued", u32 "gate_a20_status", u32 "reset_was_by_keyboard",
   u16 "output_contents", u16 "pending_8042_value", u16 "status", u16 "output_port_bits",
   u16 "command_byte", u16 "light_pattern", u32 "refill_event_handle"]

def videoMemoryFields : Table :=
  [u8 "plane" 524288, u8 "dac" 768]

def videoControllerFields : Table :=
  [u8 "sequencer" 5, u8 "crtc" 25, u8 "graphics" 9, u8 "attribute" 21, u8 "v7" 28,
   u8 "sequencer_extension_control", u8 "miscellaneous_output", u8 "feature_control",
   u8 "sequencer_index", u8 "crtc_index", u8 "graphics_index", u8 "attribute_index",
   u8 "dac_mask", u8 "dac_read_address", u8 "dac_write_address", u8 "dac_component",
   u8 "dac_state", u8 "currently_emulated_video_mode", u32 "cvid_latches",
   u32 "cvid_v7_foreground_latches"]

def serialPortFields : Table :=
  [u16 "tx_buffer", u16 "rx_buffer", u16 "divisor_latch", u16 "int_enable", u16 "int_id",
   u16 "line_control", u16 "modem_control", u16 "line_status", u16 "modem_status", u16 "scratch",
   u32 "break_state", u32 "loopback_state", u32 "dtr_state", u32 "rts_state", u32 "out1_state",
   u32 "out2_state", u32 "receiver_line_status_interrupt", u32 "data_available_interrupt",
   u32 "tx_empty_interrupt", u32 "modem_status_interrupt", u32 "interrupt_priority",
   u32 "baud_index", u32 "had_first_read"]

def serialControllerFields : Table :=
  [u32 "critical" 4, u16 "line_control_flush_mask", u32 "transmit_pacing"]

def serialHostPortFields : Table :=
  [u8 "rx" 256, u32 "rx_count", u32 "tx_count", u32 "baud", u32 "data_bits", u32 "stop_bits",
   u32 "parity", u32 "break_enabled", u32 "dtr", u32 "rts", u32 "opened", u32 "xon_enabled",
   u32 "modem", u16 "last_msr"]

def parallelControllerFields : Table :=
  [u16 "output" 3, u16 "control" 3, u16 "status" 3, u32 "state" 3, u64 "out_event" 3,
   u64 "out_ack_event" 3, u8 "retry_error_count"]

def parallelHostPortFields : Table :=
  [u8 "buffer" 1024, u32 "port_status", u32 "inactive_counter", u32 "inactive_trigger",
   u32 "bytes_in_buffer", u32 "flush_threshold", u32 "active", u32 "direct_access",
   u32 "no_device_attached"]

def pitCounterFields : Table :=
  [u32 "mode", u32 "bcd", u32 "read_load", u32 "state", u32 "state_prior_wait",
   u32 "state_on_gate", u32 "action_on_wait_complete", u32 "action_on_gate_enabled",
   u8 "output_lsb", u8 "output_msb", u8 "latch_value_lsb", u8 "latch_value_msb",
   u8 "latch_status", u32 "initial_count", u32 "read_state", u32 "count_latched", u16 "count",
   u16 "new_count", u16 "tick_adjust", u64 "activation_age_microseconds", u32 "terminal_count",
   u32 "freeze_counter", u32 "last_ticks", u32 "microtick", u32 "time_frig", u16 "saved_count",
   u32 "guesses_per_host_tick", u32 "guesses_so_far", u32 "delay", u32 "trigger", u16 "gate",
   u16 "clock", u32 "waveform_low", u32 "waveform_high", u32 "waveform_period",
   u32 "waveform_start_level", u32 "waveform_repeats"]

def pitFields : Table :=
  [u32 "current_counter", u32 "ticks_blocked", u32 "timer_interrupt_enabled", u32 "time_lock",
   u32 "need_tick", u32 "hack_active", u32 "too_soon_after_previous", u32 "ticks_lost_this_time",
   u32 "real_mode_ticks_in_a_row", u32 "instructions_per_tick",
   u32 "adjusted_instructions_per_tick", u32 "real_mode_instruction_limit",
   u32 "adjusted_real_mode_tick_limit", u32 "maximum_backlog", u32 "more_timer_multiple",
   u32 "timer_multiple_delay", u32 "active_interrupt_event"]

def dosMouseFields : Table :=
  [u32 "initialized", u16 "interrupt_rate", u16 "com_revision", u16 "button_press_x" 2,
   u16 "button_press_y" 2, u16 "button_release_x" 2, u16 "button_release_y" 2,
   u16 "button_press_count" 2, u16 "button_release_count" 2, u16 "mouse_gear_x",
   u16 "mouse_gear_y", u16 "mouse_sensitivity_x", u16 "mouse_sensitivity_y",
   u16 "mouse_sensitivity_value_x", u16 "mouse_sensitivity_value_y", u16 "mouse_double_threshold",
   u16 "archive_text_cursor_type", u16 "text_cursor_screen", u16 "text_cursor_cursor",
   u16 "graphics_hot_spot_x", u16 "graphics_hot_spot_y", u16 "graphics_size_x",
   u16 "graphics_size_y", u16 "graphics_screen" 16, u16 "graphics_cursor_words" 16,
   u32 "graphics_screen_lo" 16, u32 "graphics_screen_hi" 16, u32 "graphics_cursor_lo" 16,
   u32 "graphics_cursor_hi" 16, u16 "user_handler_segment", u16 "user_handler_offset",
   u16 "user_handler_mask", u32 "alternate_handlers_active", u16 "alternate_handler_segment" 3,
   u16 "alternate_handler_offset" 3, u16 "alternate_handler_mask" 3, u16 "black_hole_left",
   u16 "black_hole_top", u16 "black_hole_right", u16 "black_hole_bottom",
   u16 "archive_double_speed_threshold", u32 "archive_cursor_flag", u16 "cursor_x",
   u16 "cursor_y", u16 "button_status", u16 "cursor_window_left", u16 "cursor_window_top",
   u16 "cursor_window_right", u16 "cursor_window_bottom", u32 "archive_light_pen_mode",
   u16 "motion_x", u16 "motion_y", u16 "raw_motion_x", u16 "raw_motion_y", u16 "default_cursor_x",
   u16 "default_cursor_y", u16 "cursor_position_x", u16 "cursor_position_y",
   u16 "fractional_cursor_x", u16 "fractional_cursor_y", u32 "archive_cursor_page",
   u32 "archive_active_acceleration_curve", u32 "archive_next_video_mode",
   u16 "acceleration_length" 4, u16 "acceleration_count" 128, u16 "acceleration_scale" 128,
   u16 "acceleration_name" 64, u16 "driver_disabled", u16 "archive_current_video_mode",
   u16 "archive_text_cursor_background", u16 "archive_graphics_cursor_background" 16,
   u32 "archive_save_area_in_use", u16 "save_position_x", u16 "save_position_y",
   u16 "save_area_left", u16 "save_area_top", u16 "save_area_right", u16 "save_area_bottom",
   u32 "archive_user_subroutine_critical", u16 "archive_last_condition_mask", u16 "saved_ax",
   u16 "saved_bx", u16 "saved_cx", u16 "saved_dx", u16 "saved_si", u16 "saved_di", u16 "saved_es",
   u16 "saved_bp", u16 "saved_ds", u16 "virtual_screen_left", u16 "virtual_screen_top",
   u16 "virtual_screen_right", u16 "virtual_screen_bottom", u16 "cursor_grid_x",
   u16 "cursor_grid_y", u16 "text_grid_x", u16 "text_grid_y", u16 "default_black_hole_left",
   u16 "default_black_hole_top", u16 "default_black_hole_right", u16 "default_black_hole_bottom",
   u16 "archive_saved_int33_segment", u16 "archive_saved_int33_offset",
   u16 "archive_saved_int10_segment", u16 "archive_saved_int10_offset",
   u16 "archive_saved_int0a_segment", u16 "archive_saved_int0a_offset",
   u32 "archive_int10_chained", u8 "archive_vga_background" 256, u32 "ega_background_lo" 16,
   u32 "ega_background_mid" 16, u32 "ega_background_hi" 16, u16 "archive_ega_current_crtc" 25,
   u16 "archive_ega_current_graph" 9, u16 "archive_ega_current_seq" 4,
   u16 "archive_ega_current_attr" 20, u16 "archive_ega_current_misc", u32 "cursor_em_disabled"]

def sbMixerFields : Table :=
  [u8 "selected", u8 "master", u8 "fm", u8 "cd", u8 "voice"]

def sbFmFields : Table :=
  [u8 "selected", u8 "status"]

def sbMidiFields : Table :=
  [u8 "buffer" 4096, u8 "running_status", u8 "realtime", u8 "discard_sysex", u8 "notes" 6144,
   u8 "sustain" 16, u8 "sostenuto" 16, u32 "next_data", u32 "bytes_left", u32 "last_length"]

def sbDspFields : Table :=
  [u8 "buffer" 65536, u8 "dma_status", u8 "dma_mode", u8 "dma_mask", u8 "IdentByte",
   u8 "ReservedRegister", u8 "TableMungeData", u8 "TableMungeFirstByte", u8 "ResetState",
   u8 "DSPWriteState", u8 "DSPReadState", u8 "DspMode", u8 "DspTransferMode", u8 "bDspActive",
   u8 "bDspPaused", u8 "SbAnswerDMAPosition", u8 "bExitDMAThread", u8 "bDspReset", u8 "bExitAuto",
   u8 "bHighSpeedMode", u8 "DspSpeakerEnabled", u8 "DspEoiRegistered", u16 "StartingDmaAddr",
   u16 "StartingDmaCount", u16 "dma_addr", u16 "dma_count", u16 "dma_page", u32 "TimeConstant",
   u32 "SBBlockSize", u32 "blockSize", u32 "DspTransferSize", u32 "DspTransferConsumed",
   u32 "DspCompletionEvent", u32 "DspOutputRate", u32 "PreviousWaveOutPos",
   u32 "DspNumberDmaQueries", u32 "DspVirtualInc"]

def sbFields : Table :=
  [u8 "attached", u8 "mpu_present", u8 "mpu_mode", u8 "mpu_input"]

def eoiFields : Table :=
  [u32 "mask", u32 "handles" 16]

end Tables

/-- A part of the archive that has a table of its own. -/
inductive Part where
  | dma
  | picAdapter (index : Fin 2)
  | pic
  | pitCounter (index : Fin 3)
  | pit | cmos | fdc
  | hddDrive (index : Fin 2)
  | hdd | ppi | inportMouse | keyboard | dosMouse | videoMemory | videoController
  | serialPort (index : Fin 4)
  | serialController
  | serialHostPort (index : Fin 4)
  | parallelController
  | parallelHostPort (index : Fin 3)
  | floppyHost | sb | sbMixer | sbFm | sbMidi | sbDsp | eoi
  deriving DecidableEq

def Part.table : Part → Table
  | .dma => dmaFields
  | .picAdapter _ => picAdapterFields
  | .pic => picFields
  | .pitCounter _ => pitCounterFields
  | .pit => pitFields
  | .cmos => cmosFields
  | .fdc => fdcFields
  | .hddDrive _ => hddDriveFields
  | .hdd => hddFields
  | .ppi => ppiFields
  | .inportMouse => inportMouseFields
  | .keyboard => keyboardFields
  | .dosMouse => dosMouseFields
  | .videoMemory => videoMemoryFields
  | .videoController => videoControllerFields
  | .serialPort _ => serialPortFields
  | .serialController => serialControllerFields
  | .serialHostPort _ => serialHostPortFields
  | .parallelController => parallelControllerFields
  | .parallelHostPort _ => parallelHostPortFields
  | .floppyHost => floppyHostFields
  | .sb => sbFields
  | .sbMixer => sbMixerFields
  | .sbFm => sbFmFields
  | .sbMidi => sbMidiFields
  | .sbDsp => sbDspFields
  | .eoi => eoiFields

/-- The order of `device_write_all`. -/
def writeOrder : List Part :=
  [[.dma], (List.finRange 2).map .picAdapter, [.pic], (List.finRange 3).map .pitCounter,
    [.pit, .cmos, .fdc], (List.finRange 2).map .hddDrive,
    [.hdd, .ppi, .inportMouse, .keyboard, .dosMouse, .videoMemory, .videoController],
    (List.finRange 4).map .serialPort, [.serialController],
    (List.finRange 4).map .serialHostPort, [.parallelController],
    (List.finRange 3).map .parallelHostPort, [.floppyHost],
    [.sb, .sbMixer, .sbFm, .sbMidi, .sbDsp, .eoi]].flatten

/-- The order of `device_read_all`. -/
def readOrder : List Part :=
  [[.dma], (List.finRange 2).map .picAdapter, [.pic], (List.finRange 3).map .pitCounter,
    [.pit, .cmos, .fdc], (List.finRange 2).map .hddDrive,
    [.hdd, .ppi, .inportMouse, .keyboard, .dosMouse, .videoMemory, .videoController],
    (List.finRange 4).map .serialPort, [.serialController],
    (List.finRange 4).map .serialHostPort, [.parallelController],
    (List.finRange 3).map .parallelHostPort, [.floppyHost],
    [.sb, .sbMixer, .sbFm, .sbMidi, .sbDsp, .eoi]].flatten

/-! ## The event queues -/

/-- `Q_EVENT_SNAPSHOT_ENTRY`. -/
inductive EntryField where
  | timeFromLast | originalTime | handle | param | eventType | callbackId | hashNextIndex
  deriving DecidableEq

/-- `q_ev_handle` has 64 bits. -/
def EntryField.width : EntryField → ℕ
  | .handle => 64
  | _ => 32

abbrev QueueEntry := ∀ field : EntryField, BitVec field.width

/-- `Q_EVENT_SNAPSHOT_STATE`, the words before its counts. -/
inductive QueueField where
  | nextQuickHandle | nextTickHandle | quickCount | tickCount
  deriving DecidableEq

def QueueField.width : QueueField → ℕ
  | .nextQuickHandle | .nextTickHandle => 64
  | .quickCount | .tickCount => 32

/-- The queues, with as many entries as they count. -/
structure Queues where
  fields : ∀ field : QueueField, BitVec field.width
  quickHashHead : Fin 16 → BitVec 32
  tickHashHead : Fin 16 → BitVec 32
  quickEntries : List QueueEntry
  tickEntries : List QueueEntry

variable {w : ℕ}

/-- `QUEUE_U32`. -/
def writeQueueWord (value : BitVec w) : List UInt8 := writeU32 (value.setWidth 32)

/-- `READ_QUEUE_U32`. -/
def readQueueWord : Reader (BitVec w) := do
  let value ← readU32
  pure (value.setWidth w)

/-- The order of an entry's words in `device_write_queue` … -/
def entryWriteOrder : List EntryField :=
  [.timeFromLast, .originalTime, .handle, .param, .eventType, .callbackId, .hashNextIndex]

/-- … and in `device_read_queue`. -/
def entryReadOrder : List EntryField :=
  [.timeFromLast, .originalTime, .handle, .param, .eventType, .callbackId, .hashNextIndex]

def writeEntry : QueueEntry → List UInt8 := writeFields (fun _ => writeQueueWord) entryWriteOrder

def readEntry : Reader QueueEntry := readFields (fun _ => readQueueWord) entryReadOrder fun _ => 0

def writeHashHead : (Fin 16 → BitVec 32) → List UInt8 :=
  writeFields (fun _ => writeQueueWord) (List.finRange 16)

def readHashHead : Reader (Fin 16 → BitVec 32) :=
  readFields (fun _ => readQueueWord) (List.finRange 16) fun _ => 0

def writeQueueFields : (∀ field : QueueField, BitVec field.width) → List UInt8 :=
  writeFields (fun _ => writeQueueWord) [.nextQuickHandle, .nextTickHandle, .quickCount, .tickCount]

def readQueueFields : Reader (∀ field : QueueField, BitVec field.width) :=
  readFields (fun _ => readQueueWord) [.nextQuickHandle, .nextTickHandle, .quickCount, .tickCount]
    fun _ => 0

def deviceWriteQueue (queues : Queues) : List UInt8 :=
  writeQueueFields queues.fields ++
  writeU32 (.ofNat 32 queues.quickEntries.length) ++
  writeU32 (.ofNat 32 queues.tickEntries.length) ++
  writeHashHead queues.quickHashHead ++ writeHashHead queues.tickHashHead ++
  queues.quickEntries.flatMap writeEntry ++ queues.tickEntries.flatMap writeEntry

/-- `resize_entries` of an archive that has none. -/
def resizeEntries (required : ℕ) : Reader Unit :=
  if required = 0 then pure () else storage .noMemory

def deviceReadQueue : Reader Queues := do
  let fields ← readQueueFields
  let quick ← readU32
  let tick ← readU32
  ensure (quick.toNat ≤ 65536 && tick.toNat ≤ 65536) .invalidArgument
  let quickHashHead ← readHashHead
  let tickHashHead ← readHashHead
  resizeEntries quick.toNat
  resizeEntries tick.toNat
  let entries ← many readEntry (quick.toNat + tick.toNat)
  pure ⟨fields, quickHashHead, tickHashHead, entries.take quick.toNat, entries.drop quick.toNat⟩

/-- Words that fit the stream. -/
def QueueEntry.Fits (entry : QueueEntry) : Prop := ∀ field, (entry field).toNat < 2 ^ 32

/-- What the reader admits: words that fit, and so many entries. -/
structure Queues.Fits (queues : Queues) : Prop where
  fields : ∀ field, (queues.fields field).toNat < 2 ^ 32
  quickEntries : ∀ entry ∈ queues.quickEntries, QueueEntry.Fits entry
  tickEntries : ∀ entry ∈ queues.tickEntries, QueueEntry.Fits entry
  quickLength : queues.quickEntries.length ≤ 65536
  tickLength : queues.tickEntries.length ≤ 65536

theorem pairs_queueWord (hw : 32 ≤ w) :
    Pairs (readQueueWord : Reader (BitVec w)) writeQueueWord fun value => value.toNat < 2 ^ 32 := by
  refine pairs_u32.map (fun value _ => ⟨?_, ?_⟩) fun value hvalue => ⟨?_, trivial⟩
  · rw [BitVec.setWidth_setWidth_of_le _ hw, BitVec.setWidth_eq]
  · rw [BitVec.toNat_setWidth]
    exact (Nat.mod_le _ _).trans_lt value.isLt
  · apply BitVec.eq_of_toNat_eq
    rw [BitVec.toNat_setWidth, BitVec.toNat_setWidth, Nat.mod_eq_of_lt hvalue,
      Nat.mod_eq_of_lt value.isLt]

theorem pairs_entry : Pairs readEntry writeEntry QueueEntry.Fits := by
  refine Pairs.fields (fun field => pairs_queueWord ?_) (by decide) ?_ _
  · cases field <;> decide
  · intro field
    cases field <;> decide

theorem pairs_hashHead : Pairs readHashHead writeHashHead fun _ => True := by
  have h : Pairs readHashHead writeHashHead fun heads => ∀ i, (heads i).toNat < 2 ^ 32 :=
    Pairs.fields (fun _ => pairs_queueWord le_rfl) (List.nodup_finRange _) List.mem_finRange _
  exact h.congr (fun heads => ⟨fun _ i => (heads i).isLt, fun _ => trivial⟩) fun _ _ => rfl

@[simp] theorem parse_resizeEntries (required : ℕ) (list : List UInt8) :
    (resizeEntries required).parse list = some ((), list) := by
  unfold resizeEntries
  split <;> rfl

theorem pairs_queueFields :
    Pairs readQueueFields writeQueueFields fun fields => ∀ field, (fields field).toNat < 2 ^ 32 := by
  refine Pairs.fields (fun field => pairs_queueWord ?_) (by decide) ?_ _
  · cases field <;> decide
  · intro field
    cases field <;> decide

/-- **The queues** are read as they are written. -/
theorem pairs_queue : Pairs deviceReadQueue deviceWriteQueue Queues.Fits where
  decodes queues rest h := by
    have hquick : (BitVec.ofNat 32 queues.quickEntries.length).toNat = queues.quickEntries.length := by
      rw [BitVec.toNat_ofNat, Nat.mod_eq_of_lt (h.quickLength.trans_lt (by decide))]
    have htick : (BitVec.ofNat 32 queues.tickEntries.length).toNat = queues.tickEntries.length := by
      rw [BitVec.toNat_ofNat, Nat.mod_eq_of_lt (h.tickLength.trans_lt (by decide))]
    have hentries := (pairs_entry.many (queues.quickEntries.length + queues.tickEntries.length)).decodes
      (queues.quickEntries ++ queues.tickEntries) rest
      ⟨List.length_append, fun entry hentry =>
        (List.mem_append.mp hentry).elim (h.quickEntries entry) (h.tickEntries entry)⟩
    rw [List.flatMap_append, List.append_assoc] at hentries
    simp only [deviceReadQueue, deviceWriteQueue, List.append_assoc, parse_bind, parse_ensure,
      parse_resizeEntries, parse_pure, (pairs_queueFields).decodes _ _ h.fields,
      pairs_u32.decodes _ _ trivial, (pairs_hashHead).decodes _ _ trivial, Option.bind_some, hquick,
      htick, hentries, h.quickLength, h.tickLength, decide_true, Bool.and_self, if_true,
      List.take_left, List.drop_left]
  encodes list queues rest h := by
    simp only [deviceReadQueue, parse_bind_eq_some, parse_ensure_eq_some, parse_pure_eq_some,
      parse_resizeEntries, Option.some.injEq, Prod.mk.injEq, Bool.and_eq_true, decide_eq_true_eq] at h
    obtain ⟨fields, _, hfields, quick, _, hquick, tick, _, htick, _, _, ⟨hlengths, rfl⟩, quickHead, _,
      hquickHead, tickHead, _, htickHead, _, _, ⟨-, rfl⟩, _, _, ⟨-, rfl⟩, entries, _, hentries, rfl,
      rfl⟩ := h
    obtain ⟨rfl, hokFields⟩ := (pairs_queueFields).encodes _ _ _ hfields
    obtain ⟨rfl, -⟩ := pairs_u32.encodes _ _ _ hquick
    obtain ⟨rfl, -⟩ := pairs_u32.encodes _ _ _ htick
    obtain ⟨rfl, -⟩ := (pairs_hashHead).encodes _ _ _ hquickHead
    obtain ⟨rfl, -⟩ := (pairs_hashHead).encodes _ _ _ htickHead
    obtain ⟨rfl, hlength, hok⟩ := (pairs_entry.many _).encodes _ _ _ hentries
    have hquickLength : (entries.take quick.toNat).length = quick.toNat := by
      rw [List.length_take]
      omega
    have htickLength : (entries.drop quick.toNat).length = tick.toNat := by
      rw [List.length_drop]
      omega
    refine ⟨?_, hokFields, fun entry hentry => hok entry (List.mem_of_mem_take hentry),
      fun entry hentry => hok entry (List.mem_of_mem_drop hentry), ?_, ?_⟩
    · simp only [deviceWriteQueue, hquickLength, htickLength, BitVec.ofNat_toNat, BitVec.setWidth_eq,
        List.append_assoc]
      rw [← List.append_assoc (List.flatMap _ _), ← List.flatMap_append, List.take_append_drop]
    · exact hquickLength.trans_le hlengths.1
    · exact htickLength.trans_le hlengths.2

/-! ## The archive -/

/-- `softpc_device_archive`. -/
structure DeviceArchive where
  queues : Queues
  parts : ∀ part : Part, Record part.table
  valid : Bool

/-- The device states of a new archive. -/
def zeroParts (part : Part) : Record part.table :=
  fun i => zeroElems (part.table.get i).kind (part.table.get i).count

def deviceWriteAll (archive : DeviceArchive) : List UInt8 :=
  deviceWriteQueue archive.queues ++
    writeFields (fun part => deviceWriteMap part.table) writeOrder archive.parts

/-- `device_read_all`, into a new archive. -/
def deviceReadAll : Reader (Queues × ∀ part : Part, Record part.table) := do
  let queues ← deviceReadQueue
  let parts ← readFields (fun part => deviceReadMap part.table (zeroParts part)) readOrder zeroParts
  pure (queues, parts)

/-- `softpc_device_archive_write`. -/
def deviceArchiveWrite (archive : DeviceArchive) : Except Status (List UInt8) :=
  if !archive.valid then .error .invalidArgument else .ok (deviceWriteAll archive)

/-- `softpc_device_archive_read`. -/
def deviceArchiveRead : Reader DeviceArchive := do
  storage .noMemory
  let (queues, parts) ← deviceReadAll
  pure ⟨queues, parts, true⟩

/-- A valid archive, of queues that fit and of whole records. -/
structure DeviceArchive.Fits (archive : DeviceArchive) : Prop where
  queues : archive.queues.Fits
  parts : ∀ part, (archive.parts part).Sized
  valid : archive.valid = true

theorem readOrder_nodup : readOrder.Nodup := by decide

theorem mem_readOrder (part : Part) : part ∈ readOrder := by
  cases part <;> simp [readOrder]

theorem pairs_parts :
    Pairs (readFields (fun part => deviceReadMap part.table (zeroParts part)) readOrder zeroParts)
      (writeFields (fun part => deviceWriteMap part.table) writeOrder)
      fun parts => ∀ part, (parts part).Sized :=
  -- both orders are the same list
  Pairs.fields (fun part => pairs_map part.table (zeroParts part)) readOrder_nodup mem_readOrder
    zeroParts

/-- **The devices** are read as they are written. -/
theorem pairs_deviceArchive : Pairs deviceArchiveRead deviceWriteAll DeviceArchive.Fits where
  decodes archive rest h := by
    obtain ⟨hqueues, hparts, hvalid⟩ := h
    simp only [deviceArchiveRead, deviceReadAll, deviceWriteAll, parse_bind, parse_storage,
      Option.bind_some, List.append_assoc, (pairs_queue).decodes _ _ hqueues,
      (pairs_parts).decodes _ _ hparts, parse_pure, ← hvalid]
  encodes list archive rest h := by
    simp only [deviceArchiveRead, deviceReadAll, parse_bind_eq_some, parse_storage_eq_some,
      parse_pure_eq_some] at h
    obtain ⟨_, _, rfl, ⟨_, _⟩, _, ⟨queues, _, hqueues, parts, _, hparts, ⟨rfl, rfl⟩, rfl⟩, rfl, rfl⟩ := h
    obtain ⟨rfl, hokQueues⟩ := (pairs_queue).encodes _ _ _ hqueues
    obtain ⟨rfl, hokParts⟩ := (pairs_parts).encodes _ _ _ hparts
    exact ⟨by rw [deviceWriteAll, List.append_assoc], hokQueues, hokParts, rfl⟩

theorem tableBytes_eq (table : Table) :
    tableBytes table = (table.map fun field => field.count * field.kind.bytes).sum := by
  unfold tableBytes
  conv_rhs => rw [← List.map_get_finRange table, List.map_map]
  rfl

theorem writeOrder_bytes : (writeOrder.map fun part => tableBytes part.table).sum < 2 ^ 32 := by
  simp only [tableBytes_eq]
  decide +kernel

/-- The section is never too long for its length to be written. -/
theorem deviceWriteAll_length_lt {archive : DeviceArchive} (h : archive.Fits) :
    (deviceWriteAll archive).length < 2 ^ 64 := by
  have hword {w : ℕ} (value : BitVec w) : (writeQueueWord value).length = 4 := writeWord_length 4 _
  have hfields : (writeQueueFields archive.queues.fields).length = 16 := by
    simp [writeQueueFields, writeFields, hword]
  have hhead (heads : Fin 16 → BitVec 32) : (writeHashHead heads).length = 64 :=
    writeArray_length hword heads
  have hentry (entry : QueueEntry) : (writeEntry entry).length = 28 := by
    simp [writeEntry, writeFields, entryWriteOrder, hword]
  have hparts : (writeFields (fun part => deviceWriteMap part.table) writeOrder archive.parts).length =
      (writeOrder.map fun part => tableBytes part.table).sum := by
    simp only [writeFields, List.length_flatMap, deviceWriteMap_length (h.parts _)]
  have hbytes := writeOrder_bytes
  have hquick := h.queues.quickLength
  have htick := h.queues.tickLength
  simp only [deviceWriteAll, deviceWriteQueue, List.length_append, hfields, hhead,
    flatMap_length hentry, hparts, writeU32, writeWord_length]
  omega

end SoftPC.Snapshot
