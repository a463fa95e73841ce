import TagBalance.Config.Merge

/-!
The configuration that is always there, below all files and overrides.
-/
namespace TagBalance.Config

def defaultLines : List Text :=
  ["# Built-in defaults for tagcheck.".toList,
    "#".toList,
    "# Matching is case-sensitive and tries names in the order listed, with no word".toList,
    "# boundary after the name: keep longer names ahead of their prefixes".toList,
    "# (`thead` before `th`) or the shorter one will win.".toList,
    "".toList,
    "[extraction]".toList,
    "tag_names = [".toList,
    "    \"div\",".toList,
    "    \"button\",".toList,
    "    \"table\",".toList,
    "    \"thead\",".toList,
    "    \"tbody\",".toList,
    "    \"tr\",".toList,
    "    \"th\",".toList,
    "    \"td\",".toList,
    "    \"span\",".toList,
    "    \"h1\",".toList,
    "    \"h2\",".toList,
    "    \"h3\",".toList,
    "    \"p\",".toList,
    "    \"label\",".toList,
    "    \"select\",".toList,
    "    \"SignaturePad\",".toList,
    "    \"ReactQuill\",".toList,
    "]".toList]

def defaultDocument : Text := Text.unlines defaultLines

end TagBalance.Config
