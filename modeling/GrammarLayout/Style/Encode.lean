import GrammarLayout.Digest.Sha256
import GrammarLayout.Style.Decode

/-!
# Styles as TOML

A style is written as a TOML table for each pass, in a fixed order.  The digest
of that text is the style's fingerprint, which tells styles apart in the cache.

The names under which the encoder finds a field are the field's own tags, not
the keys of `Style.settings`.
-/

namespace GrammarLayout

open Text

/-- A setting as it stands after the equals sign; only the types that occur in styles have one. -/
def Setting.encode : Setting → Text
  | .flag b => if b then bytes "true" else bytes "false"
  | .int _ n => ofInt n
  | .text t => Ascii.doubleQuote :: t ++ [Ascii.doubleQuote]
  | _ => []

/-- The fields of a style under their tags, section by section. -/
def Style.tagged (s : Style) : List (Text × Table) :=
  [ (bytes "indent",
      [ (bytes "enabled", .flag s.indent.enabled),
        (bytes "size", .int .native s.indent.size),
        (bytes "style", .text s.indent.kind.key) ]),
    (bytes "brace_newline",
      [ (bytes "enabled", .flag s.brace.enabled),
        (bytes "style", .text s.brace.placement.key),
        (bytes "space_before", .flag s.brace.spaceBefore) ]),
    (bytes "spacing",
      [ (bytes "enabled", .flag s.spacing.enabled),
        (bytes "around_colon", .flag s.spacing.aroundColon),
        (bytes "around_pipe", .flag s.spacing.aroundPipe),
        (bytes "around_equals", .flag s.spacing.aroundEquals) ]),
    (bytes "alignment",
      [ (bytes "enabled", .flag s.alignment.enabled),
        (bytes "align_actions", .flag s.alignment.alignActions),
        (bytes "align_rules", .flag s.alignment.alignRules) ]),
    (bytes "empty_line",
      [ (bytes "enabled", .flag s.emptyLine.enabled),
        (bytes "between_rules", .flag s.emptyLine.betweenRules),
        (bytes "after_header", .flag s.emptyLine.afterHeader),
        (bytes "before_footer", .flag s.emptyLine.beforeFooter) ]) ]

/-- A setting behind its key, without the newline. -/
def encodeEntry (e : Text × Setting) : Text := bytes "    " ++ e.1 ++ bytes " = " ++ e.2.encode

/-- The table of one section. -/
def encodeSection (fields : Text × Table) : Text :=
  bytes "  [rules." ++ fields.1 ++ bytes "]\n"
    ++ fields.2.flatMap fun e => encodeEntry e ++ bytes "\n"

/-- A style as TOML. -/
def Style.encode (s : Style) : Text := bytes "[rules]\n" ++ s.tagged.flatMap encodeSection

/-- The fingerprint of a style. -/
def Style.fingerprint (s : Style) : Text := sha256 s.encode

end GrammarLayout
