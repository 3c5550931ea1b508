/-!
Colors and weights of text on a terminal.

What is written for them depends on the terminal and its settings, so a painter is a parameter of
everything that paints.
-/

set_option autoImplicit false
set_option relaxedAutoImplicit false

namespace LoxLang.Text

/-- What is written for a text in a color, if one is named, and with attributes. -/
abbrev Painter := Option String → List String → String → String

namespace Painter

/-- The painter that leaves every text as it is. -/
def plain : Painter := fun _ _ text ↦ text

/-- The painter if text is to be colored at all, else the plain one. -/
def when (colored : Bool) (painter : Painter) : Painter :=
  if colored then painter else plain

@[simp] theorem when_false (painter : Painter) : painter.when false = plain := rfl

end Painter

end LoxLang.Text
