import MailTemplate.Html.Document
import MailTemplate.Proofs.Html.Markup

/-!
# The Shell of a Document

A document is its content between two texts. The text in front of the content is made of the page
record and the title alone, and the text behind it is always the same.

* `Page.opening` and `closing` are the two texts.
* `write_document` takes a document apart.
-/

namespace MailTemplate

namespace Html

/-- The text of a start tag. -/
def startTag (tag : String) (attributes : List Attribute) : String :=
  String.ofList ('<' :: tagChars tag attributes ++ ['>'])

/-- The text of an end tag. -/
def endTag (tag : String) : String :=
  "</" ++ tag ++ ">"

@[simp]
theorem write_nil : write [] = "" := rfl

@[simp]
theorem write_append (xs ys : List Markup) : write (xs ++ ys) = write xs ++ write ys := by
  simp [write]

theorem write_cons (m : Markup) (rest : List Markup) :
    write (m :: rest) = write [m] ++ write rest :=
  write_append [m] rest

@[simp]
theorem write_lineFeed (rest : List Markup) : write (lineFeed :: rest) = "\n" ++ write rest :=
  write_cons lineFeed rest

@[simp]
theorem write_element (tag : String) (attributes : List Attribute) (content rest : List Markup) :
    write (.element tag attributes content :: rest) =
      startTag tag attributes ++ write content ++ endTag tag ++ write rest := by
  apply String.toList_injective
  simp [write, startTag, endTag, contentChars, Markup.chars]

end Html

open Html

/-- The text of a table with one cell, up to the content of the cell. -/
def frameOpening (width more attributes : List Attribute) : String :=
  startTag "table" (⟨"role", "presentation"⟩ :: width ++
    [⟨"cellpadding", "0"⟩, ⟨"cellspacing", "0"⟩, ⟨"border", "0"⟩] ++ more) ++
    "\n" ++ startTag "tr" [] ++ "\n" ++ startTag "td" attributes

/-- The text of a table with one cell, from the end of the cell. -/
def frameClosing : String :=
  "</td>\n</tr>\n</table>"

@[simp]
theorem write_layoutTable (width more attributes : List Attribute) (content rest : List Markup) :
    write (layoutTable width more [cell attributes content] :: rest) =
      frameOpening width more attributes ++ write content ++ frameClosing ++ write rest := by
  have hclosing : frameClosing = endTag "td" ++ "\n" ++ endTag "tr" ++ "\n" ++ endTag "table" := rfl
  simp [layoutTable, cell, frameOpening, hclosing, String.append_assoc]

/-- The text of the body of a document up to the content. -/
def Page.bodyOpening (page : Page) : String :=
  let width := page.contentWidth
  startTag "body"
      [.style [("margin", "0"), ("padding", "0"), ("background-color", page.backgroundColor)]] ++
    "\n" ++
    frameOpening fullWidth [.style [("background-color", page.backgroundColor)]]
      [⟨"align", "center"⟩, .style [("padding", "20px 0")]] ++
    "\n" ++
    frameOpening [⟨"width", wordText width⟩]
      [.style [
        ("width", pixels width),
        ("max-width", pixels width),
        ("background-color", page.contentBackgroundColor),
        ("font-family", page.fontFamily)]] [] ++
    "\n"

/-- The text of a document in front of its content. -/
def Page.opening (page : Page) (title : Option String) : String :=
  doctype ++ "\n" ++ startTag "html" [⟨"xmlns", "http://www.w3.org/1999/xhtml"⟩] ++ "\n" ++
    write [documentHead title] ++ "\n" ++ page.bodyOpening

/-- The text of a document behind its content. -/
def closing : String :=
  "</td>\n</tr>\n</table>\n</td>\n</tr>\n</table>\n</body>\n</html>\n"

theorem write_body (page : Page) (content rest : List Markup) :
    write (page.body content :: rest) = page.bodyOpening ++ write content ++ frameClosing ++
      "\n" ++ frameClosing ++ "\n" ++ endTag "body" ++ write rest := by
  simp [Page.body, Page.bodyOpening, String.append_assoc]

theorem write_document (page : Page) (title : Option String) (content : List Markup) :
    doctype ++ "\n" ++ write [page.document title content, lineFeed] =
      page.opening title ++ write content ++ closing := by
  have hclosing : closing = frameClosing ++ "\n" ++ frameClosing ++ "\n" ++ endTag "body" ++
    "\n" ++ endTag "html" ++ "\n" := rfl
  -- The head is kept whole, for it is the same on both sides.
  have hhead := write_cons (documentHead title) [lineFeed, page.body content, lineFeed]
  simp [Page.document, Page.opening, hclosing, hhead, write_body, String.append_assoc]

namespace Tree

theorem compile_eq (tree : Tree) (title : Option String) :
    tree.compile title = (tree.page?.getD {}).opening title ++
      write (tree.content (tree.page?.getD {}).contentWidth) ++ closing :=
  write_document _ title _

end Tree

end MailTemplate
