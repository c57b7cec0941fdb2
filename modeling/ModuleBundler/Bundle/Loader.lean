/-
  The loader: the function at the top of a bundle that runs modules. It takes the table of modules,
  runs each one when it is first asked for and keeps what it exports. An entry of the table is kept
  before its module runs, so that modules may ask for each other in circles, and given up if the
  module fails.
-/

namespace ModuleBundler

/-- The lines of the loader before the one that starts the entry. -/
def loaderHead : List String :=
  ["(function (modules) \x7b",
   "  var cache = \x7b\x7d;",
   "  var has = Object.prototype.hasOwnProperty;",
   "",
   "  function require(id) \x7b",
   "    if (has.call(cache, id)) \x7b",
   "      return cache[id];",
   "    \x7d",
   "    if (!has.call(modules, id)) \x7b",
   "      throw new Error(\"RuntimeLookupError: module '\" + id + \"' is not in the bundle\");",
   "    \x7d",
   "",
   "    var factory = modules[id][0];",
   "    var dependencies = modules[id][1];",
   "    var exports = \x7b\x7d;",
   "    cache[id] = exports;",
   "",
   "    function localRequire(specifier) \x7b",
   "      if (!has.call(dependencies, specifier)) \x7b",
   "        throw new Error(\"RuntimeLookupError: '\" + specifier + \"' imported from '\" + id " ++
     "+ \"' is not in the bundle\");",
   "      \x7d",
   "      return require(dependencies[specifier]);",
   "    \x7d",
   "",
   "    try \x7b",
   "      factory(localRequire, exports);",
   "    \x7d catch (err) \x7b",
   "      delete cache[id];",
   "      throw err;",
   "    \x7d",
   "    return exports;",
   "  \x7d",
   ""]

/-- The lines of the loader after the one that starts the entry. -/
def loaderTail : List String := ["\x7d)"]

/-- The loader that starts the module whose identifier is written as a literal. -/
def loader (entryLiteral : String) : String :=
  "\n".intercalate
    (loaderHead ++ ["  require(" ++ entryLiteral ++ ");"] ++ loaderTail)

end ModuleBundler
