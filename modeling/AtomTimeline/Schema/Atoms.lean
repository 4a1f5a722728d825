import AtomTimeline.Schema.Declaration

/-!
The atoms known without a descriptor set: the common ones of the Android platform, with the field
numbers and names that the platform gives them.

* `Atoms.files` is the set of files that declares them; `Atoms.messageName` is the message whose
  fields are the atoms.
-/

namespace AtomTimeline

namespace Atoms

/-- The full name of the message whose fields are the atoms. -/
def messageName : String := ".android.os.statsd.Atom"

/-- A field of a plain type. -/
def plain (name : String) (number : Int) (type : FieldType) : FieldDecl :=
  ⟨name, number, type, "", .optional⟩

/-- A field of a named enum type. -/
def enumField (name : String) (number : Int) (typeName : String) : FieldDecl :=
  ⟨name, number, .enum, typeName, .optional⟩

/-- The field that says on whose behalf something happened. -/
def attributionChain : FieldDecl :=
  ⟨"attribution_node", 1, .message, ".android.os.statsd.AttributionNode", .repeated⟩

/-- A message without nested types. -/
def message (name : String) (fields : List FieldDecl) : MessageDecl := .mk name fields [] []

/-- Each atom: its id, its name and its type. -/
def members : List (Int × String × String) :=
  [(2, "ble_scan_state_changed", "BleScanStateChanged"),
    (4, "ble_scan_result_received", "BleScanResultReceived"),
    (9, "screen_brightness_changed", "ScreenBrightnessChanged"),
    (10, "wakelock_state_changed", "WakelockStateChanged"),
    (29, "screen_state_changed", "ScreenStateChanged"),
    (30, "battery_level_changed", "BatteryLevelChanged"),
    (31, "charging_state_changed", "ChargingStateChanged"),
    (32, "plugged_state_changed", "PluggedStateChanged")]

/-- The enums of displays. -/
def viewFile : FileDecl where
  package := "android.view"
  messages := []
  enums :=
    [⟨"DisplayStateEnum",
      [("DISPLAY_STATE_UNKNOWN", 0), ("DISPLAY_STATE_OFF", 1), ("DISPLAY_STATE_ON", 2),
        ("DISPLAY_STATE_DOZE", 3), ("DISPLAY_STATE_DOZE_SUSPEND", 4), ("DISPLAY_STATE_VR", 5),
        ("DISPLAY_STATE_ON_SUSPEND", 6)]⟩]

/-- The enums of power and wake locks. -/
def osFile : FileDecl where
  package := "android.os"
  messages := []
  enums :=
    [⟨"BatteryStatusEnum",
      [("BATTERY_STATUS_INVALID", 0), ("BATTERY_STATUS_UNKNOWN", 1),
        ("BATTERY_STATUS_CHARGING", 2), ("BATTERY_STATUS_DISCHARGING", 3),
        ("BATTERY_STATUS_NOT_CHARGING", 4), ("BATTERY_STATUS_FULL", 5)]⟩,
      ⟨"BatteryPluggedStateEnum",
        [("BATTERY_PLUGGED_NONE", 0), ("BATTERY_PLUGGED_AC", 1), ("BATTERY_PLUGGED_USB", 2),
          ("BATTERY_PLUGGED_WIRELESS", 4), ("BATTERY_PLUGGED_DOCK", 8)]⟩,
      ⟨"WakeLockLevelEnum",
        [("PARTIAL_WAKE_LOCK", 1), ("SCREEN_DIM_WAKE_LOCK", 6), ("SCREEN_BRIGHT_WAKE_LOCK", 10),
          ("FULL_WAKE_LOCK", 26), ("PROXIMITY_SCREEN_OFF_WAKE_LOCK", 32), ("DOZE_WAKE_LOCK", 64),
          ("DRAW_WAKE_LOCK", 128)]⟩]

/-- The types of the atoms. -/
def atomTypes : List MessageDecl :=
  [message "AttributionNode" [plain "uid" 1 .int32, plain "tag" 2 .string],
    .mk "BleScanStateChanged"
      [attributionChain, enumField "state" 2 "State", plain "is_filtered" 3 .bool,
        plain "is_first_match" 4 .bool, plain "is_opportunistic" 5 .bool]
      [] [⟨"State", [("OFF", 0), ("ON", 1), ("RESET", 2)]⟩],
    message "BleScanResultReceived" [attributionChain, plain "num_results" 2 .int32],
    message "ScreenBrightnessChanged" [plain "level" 1 .int32],
    .mk "WakelockStateChanged"
      [attributionChain, enumField "type" 2 ".android.os.WakeLockLevelEnum",
        plain "tag" 3 .string, enumField "state" 4 "State"]
      []
      [⟨"State", [("RELEASE", 0), ("ACQUIRE", 1), ("CHANGE_RELEASE", 2), ("CHANGE_ACQUIRE", 3)]⟩],
    message "ScreenStateChanged" [enumField "state" 1 ".android.view.DisplayStateEnum"],
    message "BatteryLevelChanged" [plain "battery_level" 1 .int32],
    message "ChargingStateChanged" [enumField "state" 1 ".android.os.BatteryStatusEnum"],
    message "PluggedStateChanged" [enumField "state" 1 ".android.os.BatteryPluggedStateEnum"]]

/-- The message whose fields are the atoms. -/
def atomMessage : MessageDecl :=
  message "Atom"
    (members.map fun (number, name, typeName) =>
      ⟨name, number, .message, ".android.os.statsd." ++ typeName, .optional⟩)

/-- The set of files that declares the atoms. -/
def files : FileSet :=
  [viewFile, osFile,
    { package := "android.os.statsd", messages := atomTypes ++ [atomMessage], enums := [] }]

end Atoms

end AtomTimeline
