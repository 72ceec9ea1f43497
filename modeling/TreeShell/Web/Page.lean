import TreeShell.Text.Cut

/-!
# The page

The page that the program shows in a browser: fixed text around the boot log and the prompt, in
which the characters that mean something to the browser are escaped.
-/

namespace TreeShell.Web.Page

/-- How a character is written on the page. -/
def escapeChar : Char → List Char
  | '&' => "&amp;".toList
  | '<' => "&lt;".toList
  | '>' => "&gt;".toList
  | '"' => "&#34;".toList
  | '\'' => "&#39;".toList
  | c => [c]

/-- How a text is written on the page. -/
def escape (s : String) : String := String.ofList (s.toList.flatMap escapeChar)

/-- The lines before the boot log; the last is continued by it. -/
def beforeLog : List String :=
  [
    "<!doctype html>",
    "<html lang=\"en\">",
    "<head>",
    "  <meta charset=\"utf-8\">",
    "  <title>py-sh</title>",
    "  <style>",
    "    body \x7b background: #1e1e1e; color: #d4d4d4; font-family: monospace; margin: 0; \x7d",
    "    #terminal \x7b padding: 1em; white-space: pre-wrap; \x7d",
    "    .error \x7b color: #f48771; \x7d",
    "    .prompt \x7b color: #6a9955; \x7d",
    "    #input-line \x7b display: flex; \x7d",
    "    #command \x7b flex: 1; background: transparent; border: none; color: inherit;",
    "               font: inherit; outline: none; \x7d",
    "  </style>",
    "</head>",
    "<body>",
    "  <div id=\"terminal\"><div id=\"output\">"
  ]

/-- The lines between the boot log and the prompt; the first continues the one, the last is
continued by the other. -/
def beforePrompt : List String :=
  [
    "",
    "",
    "</div><div id=\"input-line\"><span class=\"prompt\" id=\"prompt\">"
  ]

/-- The lines after the prompt; the first continues it. -/
def afterPrompt : List String :=
  [
    "</span><input id=\"command\" autofocus autocomplete=\"off\" spellcheck=\"false\"></div></div>",
    "  <script>",
    "    const output = document.getElementById(\"output\");",
    "    const promptEl = document.getElementById(\"prompt\");",
    "    const input = document.getElementById(\"command\");",
    "",
    "    function append(text, cls) \x7b",
    "      if (!text) return;",
    "      const span = document.createElement(\"span\");",
    "      if (cls) span.className = cls;",
    "      span.textContent = text;",
    "      output.appendChild(span);",
    "    \x7d",
    "",
    "    async function post(url, body) \x7b",
    "      const response = await fetch(url, \x7b",
    "        method: \"POST\",",
    "        headers: \x7b \"Content-Type\": \"application/json\" \x7d,",
    "        body: JSON.stringify(body),",
    "      \x7d);",
    "      return response.json();",
    "    \x7d",
    "",
    "    input.addEventListener(\"keydown\", async (event) => \x7b",
    "      if (event.key === \"Tab\") \x7b",
    "        event.preventDefault();",
    "        const result = await post(\"/api/complete\", \x7b input: input.value \x7d);",
    "        if (result.type === \"complete\") \x7b",
    "          input.value = result.value;",
    "        \x7d else if (result.type === \"suggestions\") \x7b",
    "          append(promptEl.textContent + input.value + \"\\n\", \"prompt\");",
    "          append(result.suggestions.join(\"  \") + \"\\n\");",
    "        \x7d",
    "        return;",
    "      \x7d",
    "      if (event.key !== \"Enter\") return;",
    "      const command = input.value;",
    "      input.value = \"\";",
    "      append(promptEl.textContent + command + \"\\n\", \"prompt\");",
    "      const result = await post(\"/api/execute\", \x7b command \x7d);",
    "      if (result.clear) output.textContent = \"\";",
    "      append(result.output);",
    "      append(result.errors, \"error\");",
    "      promptEl.textContent = result.prompt;",
    "      window.scrollTo(0, document.body.scrollHeight);",
    "    \x7d);",
    "  </script>",
    "</body>",
    "</html>"
  ]

/-- The page for a boot log and a prompt. -/
def text (log prompt : String) : String :=
  Text.join "\n" beforeLog ++ escape log ++ Text.join "\n" beforePrompt ++ escape prompt ++
    Text.join "\n" afterPrompt

end TreeShell.Web.Page
