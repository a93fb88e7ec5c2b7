import MailTemplate.Html.Fragment

/-!
# Documents

A template as a whole mail: a document with the page background, and the content centred in it.
-/

namespace MailTemplate

open Html

/-- The type of the document, which stands before all elements. -/
def doctype : String :=
  "<!DOCTYPE html PUBLIC \"-//W3C//DTD XHTML 1.0 Transitional//EN\" " ++
    "\"http://www.w3.org/TR/xhtml1/DTD/xhtml1-transitional.dtd\">"

/-- The head of the document. -/
def documentHead (title : Option String) : Markup :=
  .element "head" [] ([
    lineFeed,
    .void "meta" [⟨"http-equiv", "Content-Type"⟩, ⟨"content", "text/html; charset=UTF-8"⟩],
    lineFeed,
    .void "meta" [⟨"name", "viewport"⟩,
      ⟨"content", "width=device-width, initial-scale=1.0"⟩],
    lineFeed] ++
    match title with
    | some title => [.element "title" [] [.text title], lineFeed]
    | none => [])

/-- The content on its background. -/
def Page.body (page : Page) (content : List Markup) : Markup :=
  let width := page.contentWidth
  let inner := layoutTable [⟨"width", wordText width⟩]
    [.style [
      ("width", pixels width),
      ("max-width", pixels width),
      ("background-color", page.contentBackgroundColor),
      ("font-family", page.fontFamily)]]
    [cell [] (lineFeed :: content)]
  let outer := layoutTable fullWidth [.style [("background-color", page.backgroundColor)]]
    [cell [⟨"align", "center"⟩, .style [("padding", "20px 0")]] [lineFeed, inner, lineFeed]]
  .element "body"
    [.style [("margin", "0"), ("padding", "0"), ("background-color", page.backgroundColor)]]
    [lineFeed, outer, lineFeed]

/-- The whole document. -/
def Page.document (page : Page) (title : Option String) (content : List Markup) : Markup :=
  .element "html" [⟨"xmlns", "http://www.w3.org/1999/xhtml"⟩]
    [lineFeed, documentHead title, lineFeed, page.body content, lineFeed]

namespace Tree

/-- The content of a tree: what its root holds. -/
def content (tree : Tree) (available : UInt32) : List Markup :=
  (tree.childrenOf rootId).flatMap (tree.fragment maxNesting · available)

/-- The text of a template as a document. -/
def compile (tree : Tree) (title : Option String) : String :=
  let page := tree.page?.getD {}
  doctype ++ "\n" ++ write [page.document title (tree.content page.contentWidth), lineFeed]

end Tree

end MailTemplate
