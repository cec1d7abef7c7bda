import GrammarLayout.Diagnostic.Basic
import GrammarLayout.Style.Basic
import GrammarLayout.Style.Setting

/-!
# Styles as settings

`Style.settings` writes a style as a tree of settings and `Style.ofSettings`
reads one back.  What a tree leaves out keeps its default, names that mean
nothing are passed over, and the first fault in the order of the sections and
their keys is reported: types first, then the values that are not allowed.
-/

namespace GrammarLayout

open Text

/-! ## Writing -/

namespace IndentKind

/-- The name of a kind of indentation. -/
def key : IndentKind → Text
  | spaces => bytes "spaces"
  | tabs => bytes "tabs"

/-- The kind of indentation with a name. -/
def ofKey? (t : Text) : Option IndentKind := [spaces, tabs].find? fun k => k.key == t

end IndentKind

namespace BracePlacement

/-- The name of a placement. -/
def key : BracePlacement → Text
  | sameLine => bytes "same_line"
  | newLine => bytes "new_line"

/-- The placement with a name. -/
def ofKey? (t : Text) : Option BracePlacement := [sameLine, newLine].find? fun k => k.key == t

end BracePlacement

/-- The settings of one pass, in their fixed order. -/
def Style.section (s : Style) : PassName → Table
  | .indent =>
      [ (bytes "enabled", .flag s.indent.enabled),
        (bytes "size", .int .native s.indent.size),
        (bytes "style", .text s.indent.kind.key) ]
  | .braceNewline =>
      [ (bytes "enabled", .flag s.brace.enabled),
        (bytes "style", .text s.brace.placement.key),
        (bytes "space_before", .flag s.brace.spaceBefore) ]
  | .spacing =>
      [ (bytes "enabled", .flag s.spacing.enabled),
        (bytes "around_colon", .flag s.spacing.aroundColon),
        (bytes "around_pipe", .flag s.spacing.aroundPipe),
        (bytes "around_equals", .flag s.spacing.aroundEquals) ]
  | .alignment =>
      [ (bytes "enabled", .flag s.alignment.enabled),
        (bytes "align_actions", .flag s.alignment.alignActions),
        (bytes "align_rules", .flag s.alignment.alignRules) ]
  | .emptyLine =>
      [ (bytes "enabled", .flag s.emptyLine.enabled),
        (bytes "between_rules", .flag s.emptyLine.betweenRules),
        (bytes "after_header", .flag s.emptyLine.afterHeader),
        (bytes "before_footer", .flag s.emptyLine.beforeFooter) ]

/-- A style as a tree of settings. -/
def Style.settings (s : Style) : Table :=
  [(bytes "rules", .table (PassName.all.map fun p => (p.key, .table (s.section p))))]

/-! ## Faults -/

/-- Why a tree of settings describes no style. -/
inductive SettingFault where
  /-- The passes are not configured by a table. -/
  | rulesNotTable
  /-- A pass is not configured by a table. -/
  | sectionNotTable (pass : PassName)
  /-- A value has another type than the one wanted. -/
  | wrongType (pass : PassName) (key wanted got : Text)
  /-- A number is not whole or does not fit in 64 bits. -/
  | outOfRange (pass : PassName) (key : Text)
  /-- The size of the indentation step is not positive. -/
  | sizeNotPositive (size : Int)
  /-- No kind of indentation has this name. -/
  | unknownIndentKind (name : Text)
  /-- No placement of braces has this name. -/
  | unknownPlacement (name : Text)
  deriving Repr, DecidableEq

namespace SettingFault

/-- The name of a pass's section, in brackets. -/
def sectionName (pass : PassName) : Text := bytes "[rules." ++ pass.key ++ bytes "]"

/-- The failure that a fault is reported as. -/
def failure : SettingFault → Failure
  | rulesNotTable => .config .invalidType (bytes "[rules] must be a table") none
  | sectionNotTable pass => .config .invalidType (sectionName pass ++ bytes " must be a table") none
  | wrongType pass key wanted got =>
      .config .invalidType
        (sectionName pass ++ bytes "." ++ key ++ bytes " must be " ++ wanted ++ bytes ", got "
          ++ got)
        none
  | outOfRange pass key =>
      .config .invalidValue (sectionName pass ++ bytes "." ++ key)
        (some (.plain (bytes "out of range")))
  | sizeNotPositive size =>
      .config .invalidValue
        (sectionName .indent ++ bytes ".size must be positive, got " ++ ofInt size) none
  | unknownIndentKind name =>
      .config .invalidValue
        (sectionName .indent ++ bytes ".style must be spaces or tabs, got " ++ quoted name) none
  | unknownPlacement name =>
      .config .invalidValue
        (sectionName .braceNewline ++ bytes ".style must be same_line or new_line, got "
          ++ quoted name) none

end SettingFault

/-! ## Reading -/

/-- Does the number fit in 64 bits with a sign? -/
def fitsWord (n : Int) : Bool := -(twoTo 63 : Int) ≤ n && n < twoTo 63

/-- The whole number of a numeric setting: `none` for another type, `some none` when it is out of
range. -/
def Setting.number? : Setting → Option (Option Int)
  | .int _ n => some (if fitsWord n then some n else none)
  | .float x => some (x.whole?.filter fitsWord)
  | _ => none

/-- The setting of a pass's key, if there is one. -/
def readSetting (rules : Table) (pass : PassName) (key : Text) :
    Except SettingFault (Option Setting) :=
  match (Table.get? rules pass.key).bind Setting.table? with
  | none => .error (.sectionNotTable pass)
  | some entries => .ok (Table.get? entries key)

/-- The truth value of a pass's key. -/
def readFlag (rules : Table) (pass : PassName) (key : Text) : Except SettingFault Bool := do
  match ← readSetting rules pass key with
  | none => return false
  | some (.flag b) => return b
  | some v => throw (.wrongType pass key (bytes "a boolean") v.typeName)

/-- The text of a pass's key. -/
def readText (rules : Table) (pass : PassName) (key : Text) : Except SettingFault Text := do
  match ← readSetting rules pass key with
  | none => return []
  | some (.text t) => return t
  | some v => throw (.wrongType pass key (bytes "a string") v.typeName)

/-- The whole number of a pass's key. -/
def readInt (rules : Table) (pass : PassName) (key : Text) : Except SettingFault Int := do
  match ← readSetting rules pass key with
  | none => return 0
  | some v =>
      match v.number? with
      | none => throw (.wrongType pass key (bytes "an integer") v.typeName)
      | some none => throw (.outOfRange pass key)
      | some (some n) => return n

/-- The style that the settings of the passes describe. -/
def Style.ofRules (rules : Table) : Except SettingFault Style := do
  let indentEnabled ← readFlag rules .indent (bytes "enabled")
  let size ← readInt rules .indent (bytes "size")
  let kindName ← readText rules .indent (bytes "style")
  let braceEnabled ← readFlag rules .braceNewline (bytes "enabled")
  let placementName ← readText rules .braceNewline (bytes "style")
  let spaceBefore ← readFlag rules .braceNewline (bytes "space_before")
  let spacing : SpacingStyle := {
    enabled := ← readFlag rules .spacing (bytes "enabled")
    aroundColon := ← readFlag rules .spacing (bytes "around_colon")
    aroundPipe := ← readFlag rules .spacing (bytes "around_pipe")
    aroundEquals := ← readFlag rules .spacing (bytes "around_equals") }
  let alignment : AlignmentStyle := {
    enabled := ← readFlag rules .alignment (bytes "enabled")
    alignActions := ← readFlag rules .alignment (bytes "align_actions")
    alignRules := ← readFlag rules .alignment (bytes "align_rules") }
  let emptyLine : EmptyLineStyle := {
    enabled := ← readFlag rules .emptyLine (bytes "enabled")
    betweenRules := ← readFlag rules .emptyLine (bytes "between_rules")
    afterHeader := ← readFlag rules .emptyLine (bytes "after_header")
    beforeFooter := ← readFlag rules .emptyLine (bytes "before_footer") }
  if size < 1 then throw (.sizeNotPositive size)
  match IndentKind.ofKey? kindName, BracePlacement.ofKey? placementName with
  | none, _ => throw (.unknownIndentKind kindName)
  | some _, none => throw (.unknownPlacement placementName)
  | some kind, some placement =>
      return {
        indent := ⟨indentEnabled, size.toNat, kind⟩
        brace := ⟨braceEnabled, placement, spaceBefore⟩
        spacing := spacing
        alignment := alignment
        emptyLine := emptyLine }

/-- The style that a tree of settings describes over the defaults. -/
def Style.ofSettings (raw : Table) : Except SettingFault Style :=
  let merged := Table.merge ({} : Style).settings raw
  match (Table.get? merged (bytes "rules")).bind Setting.table? with
  | none => .error .rulesNotTable
  | some rules => Style.ofRules rules

/-- The style with a tree of settings laid over it. -/
def Style.override (s : Style) (raw : Table) : Except SettingFault Style :=
  Style.ofSettings (Table.merge s.settings raw)

end GrammarLayout
