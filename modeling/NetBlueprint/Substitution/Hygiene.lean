import NetBlueprint.Substitution.Tree

/-!
Contract: hygienic renaming of what a body defines.

A body that is materialised more than once gets a suffix on every name it defines, so that two
copies never share a layer. Names that a body only uses never enter the rename table, so its
references to outer layers stay.
-/

namespace NetBlueprint

/-- The binding that holds the suffix of the current expansion. -/
def suffixKey : String := "__suffix__"

def containsText (part : List Char) : List Char → Bool
  | [] => part.isEmpty
  | character :: rest => part.isPrefixOf (character :: rest) || containsText part rest

structure Definition where
  template : String
  isInput : Bool
  isOutput : Bool
deriving DecidableEq, Repr

namespace Instruction

mutual

/-- The names that an instruction defines: layers, modules and named branches, through any
nesting except into the templates declared below it. -/
def definitions : Instruction → List Definition
  | .layer spec => [⟨spec.name, spec.isInput, spec.isOutput⟩]
  | .moduleDef name _ _ body => ⟨name, false, false⟩ :: definitionsOf body
  | .branch name _ body alternative =>
    (match name with
      | some name => [⟨name, false, false⟩]
      | none => []) ++ (definitionsOf body ++ definitionsOf alternative)
  | .program body | .block body | .loop _ _ _ body | .expand _ _ body | .otherwise body =>
    definitionsOf body
  | .templateDef _ _ _ | .connect _ _ | .moduleCall _ _ | .condition _ | .templateCall _ _
  | .call _ _ | .constant _ _ | .file _ => []

def definitionsOf : List Instruction → List Definition
  | [] => []
  | first :: rest => definitions first ++ definitionsOf rest

end

end Instruction

/-- Decides whether a definition keeps its name: inputs always, outputs on request, a bare
parameter, and a template that mentions the suffix itself. -/
def Definition.isExempt (parameters : List String) (exemptOutputs : Bool)
    (definition : Definition) : Bool :=
  definition.isInput || (exemptOutputs && definition.isOutput)
    || containsText suffixKey.toList definition.template.toList
    || parameters.contains (unbracket definition.template)

/-- Adds a name to a rename table unless it is there already. -/
def addRename (suffix name : String) (renames : List (String × String)) : List (String × String) :=
  if renames.any fun entry => entry.1 == name then renames else renames ++ [(name, name ++ suffix)]

/-- Builds the rename table of a list of definitions on top of a given one. -/
def renamesOf (substitution : Substitution) (suffix : String) :
    List (String × String) → List Definition → Except ExprError (List (String × String))
  | renames, [] => .ok renames
  | renames, definition :: rest =>
    match substitution.substitute definition.template with
    | .error error => .error error
    | .ok name => renamesOf substitution suffix (addRename suffix name renames) rest

/-- Builds the table that puts a suffix on every name a body defines. -/
def hygienicRenames (body : List Instruction) (substitution : Substitution)
    (parameters : List String) (suffix : String) (exemptOutputs : Bool) :
    Except ExprError (List (String × String)) :=
  renamesOf substitution suffix []
    ((Instruction.definitionsOf body).filter fun definition =>
      !definition.isExempt parameters exemptOutputs)

end NetBlueprint
