import Stencil.Reading
import Stencil.Reading.Operand
import Stencil.Tag.Catalog
/-!
# The grammar

The recursive descent parser of templates, as readings.  A template is text and tags up to the end of the source.  A tag
is a block with its body, a conditional with its branches, or a tag of one's own, which is left to the program of its
name.  A body ends at the tag that closes it, and whatever else stands in that tag is skipped.

A conditional may go on in three ways after its body.  It ends; or it does a group of nodes otherwise; or another
condition follows, which is read as a conditional of its own that stands alone in such a group and has the rest of the
conditional for its branches.

Every reading here is given its rounds and hands one fewer to the readings it calls.
-/
namespace Stencil

def Token.textNode (t : Token) : Node := .text t.place.offset t.text

namespace Reading

def condition : Reading (List Node) := ofFeed Feed.condition

mutual

/-- A tag whose opening delimiter has been taken. -/
def tag (tags : Catalog) : Nat → Reading Node
  | 0 => exhausted
  | n + 1 => do
    let name ← next
    match name.kind with
    | .blockWord =>
      let title ← expect .identifier "block name"
      let _ ← expect .tagEnd "'%\x7d' after block name"
      return .block name.place.offset title.text [] (← body tags n "endblock")
    | .ifWord => conditional tags n name
    | .identifier =>
      match tags.find? name.text with
      | none => fail (name.fault (.unknownTag name.text))
      | some program =>
        note (.dispatched name)
        program.run (tag tags n) (body tags n)
    | .endOfInput => fail (name.endedBefore "tag name")
    | _ => fail (name.fault (.unknownTag name.text))

/-- Text and tags up to and including the tag `close`. -/
def body (tags : Catalog) : Nat → String → Reading (List Node)
  | 0, _ => exhausted
  | n + 1, close => do
    let t ← next
    match t.kind with
    | .text => return t.textNode :: (← body tags n close)
    | .tagStart =>
      if (← peek).isWord close then
        skipUntil .tagEnd
        return []
      else
        let node ← tag tags n
        return node :: (← body tags n close)
    | .endOfInput => fail (t.endedBefore ("'" ++ close ++ "'-tag"))
    | _ => fail (t.unexpected "text or tag")

/-- A conditional whose keyword has been taken. -/
def conditional (tags : Catalog) : Nat → Token → Reading Node
  | 0, _ => exhausted
  | n + 1, keyword => do
    let condition ← condition
    let (nodes, otherwise) ← branches tags n
    return .conditional keyword.place.offset condition nodes otherwise

def branches (tags : Catalog) : Nat → Reading (List Node × Option Node)
  | 0 => exhausted
  | n + 1 => do
    let t ← next
    match t.kind with
    | .text =>
      let (nodes, otherwise) ← branches tags n
      return (t.textNode :: nodes, otherwise)
    | .tagStart =>
      let word ← peek
      match word.kind with
      | .elifWord =>
        let keyword ← next
        note (.nested keyword)
        let inner ← conditional tags n keyword
        return ([], some (.group inner.start [inner]))
      | .elseWord =>
        let keyword ← next
        let _ ← expect .tagEnd "'%\x7d' with no arguments to 'else'"
        return ([], some (.group keyword.place.offset (← body tags n "endif")))
      | _ =>
        if word.isWord "endif" then
          skipUntil .tagEnd
          return ([], none)
        else
          let node ← tag tags n
          let (nodes, otherwise) ← branches tags n
          return (node :: nodes, otherwise)
    | .endOfInput => fail (t.endedBefore "'endif'-tag")
    | _ => fail (t.unexpected "text or tag")

end

/-- A whole template: the nodes up to the end of the source or to the first fault, and how the reading ended. -/
def template (tags : Catalog) : Nat → Progress → List Node × Outcome Unit
  | 0, p => ([], .exhausted p)
  | n + 1, p =>
    match next.run p with
    | .failed e q => ([], .failed e q)
    | .exhausted q => ([], .exhausted q)
    | .done t q =>
      match t.kind with
      | .endOfInput => ([], .done () q)
      | .text =>
        let (nodes, ending) := template tags n q
        (t.textNode :: nodes, ending)
      | .tagStart =>
        match (tag tags n).run q with
        | .failed e r => ([], .failed e r)
        | .exhausted r => ([], .exhausted r)
        | .done node r =>
          let (nodes, ending) := template tags n r
          (node :: nodes, ending)
      | _ => ([], .failed (t.unexpected "text or tag") q)

end Reading
end Stencil
