import SsaCompiler.Fault

/-!
# Keeping names

Tables of declarations are keyed by names. A key is the text of the name where texts are kept as they
are, and a number where texts are interned; steps of collection and checking are written for both.
-/

namespace SsaCompiler

/-- A kind of steps that keep texts as keys `κ`. -/
class Names (κ : Type) (m : Type → Type) where
  /-- The key of a text, which is known from now on. -/
  intern : String → m κ
  /-- The key of a text that is known. -/
  find? : String → m (Option κ)
  text : κ → m String
  /-- The texts of the keys of a table, in an order that is up to the table. -/
  texts : List κ → m (List String)

/-- Texts that are their own keys. -/
instance {m : Type → Type} [Pure m] : Names String m where
  intern := pure
  find? text := pure (some text)
  text := pure
  texts := pure

end SsaCompiler
