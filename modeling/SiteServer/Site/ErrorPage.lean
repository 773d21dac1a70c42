import SiteServer.Http.Response

/-!
# Error pages

The two pages that the server answers with when it has nothing to show: one for a path that may not
be looked at and one for a path with nothing there.
-/

namespace SiteServer.ErrorPage

/-- The server's name as it stands below a page. -/
def signature : Text := "srv 0.1.1".toList

/-- A page with a title, a heading and one sentence. -/
def page (title heading message : Text) : Text :=
  "<!DOCTYPE html PUBLIC \"-//W3C//DTD XHTML 1.0 Strict//EN\" ".toList
    ++ "\"http://www.w3.org/TR/xhtml1/DTD/xhtml1-strict.dtd\">\n".toList
    ++ "<html>\n <head>\n  <title>".toList ++ title ++ "</title>\n".toList
    ++ "  <style>\n".toList
    ++ "   body\x7bfont-family:courier new;font-size:12;\x7d\n".toList
    ++ "   p\x7bfont-family:courier;font-size:12;\x7d\n".toList
    ++ "  </style>\n </head>\n <body>\n  <h2>".toList ++ heading ++ "</h2>\n  <p>".toList ++ message
    ++ "</p>\n  <hr/>\n  <address>server powered by ".toList ++ signature
    ++ "</address>\n </body>\n</html>\n".toList

/-- The page for a path that may not be looked at. -/
def forbiddenPage : Text :=
  page "error 403: forbidden".toList "http error 403".toList
    "access is forbidden to the requested file!".toList

/-- The page for a path with nothing there. -/
def notFoundPage : Text :=
  page "error 404: not found".toList "http error 404".toList
    "the requested file was not found!".toList

/-- The answer for a path that may not be looked at. -/
def forbidden (date : Text) : Response :=
  { status := .forbidden, mediaType := .html, body := .data (Utf8.encode forbiddenPage), date }

/-- The answer for a path with nothing there. -/
def notFound (date : Text) : Response :=
  { status := .notFound, mediaType := .html, body := .data (Utf8.encode notFoundPage), date }

end SiteServer.ErrorPage
