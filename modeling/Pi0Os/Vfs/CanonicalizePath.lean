import Pi0Os.Kernel.CString

/-! `canonicalize_path` of `fs.cpp`, with the helpers that read a canonicalized path.
The passes walk the block through indices where the code walks it through pointers;
every pass but the first loop gets as many iterations as the block has bytes. -/

namespace Pi0Os.Vfs

open Kernel Byte Buffer

/-- `while (*path == '/' && *(path + 1) == '/') path++`. -/
def skipSlashes : CString → CString
  | a :: b :: path => if a = slash ∧ b = slash then skipSlashes (b :: path) else a :: b :: path
  | path => path

def pathPassStuck : Panic := .undefined "the pass left the path"

/-- The pass that handles `..`: `start` and `last` are `last_component_start` and
`last_component_end`. -/
def handleDotDot : ℕ → Buffer → ℕ → ℕ → ℕ → Except Panic Buffer
  | 0, _, _, _, _ => .error pathPassStuck
  | fuel + 1, cpath, src, start, last => do
    let c ← load cpath src
    if c = nul then return cpath
    let (start, last) := if c = slash then (last, src) else (start, last)
    if c ≠ dot then handleDotDot fuel cpath (src + 1) start last
    else if (← load cpath (src + 1)) ≠ dot then handleDotDot fuel cpath (src + 1) start last
    else
      let cpath ← memset cpath start slash (src + 1 - start)
      handleDotDot fuel cpath (src + 2) start last

/-- The pass that turns `/.` into `//`. -/
def handleSlashDot : ℕ → Buffer → ℕ → Except Panic Buffer
  | 0, _, _ => .error pathPassStuck
  | fuel + 1, cpath, src => do
    let c ← load cpath src
    if c = nul then return cpath
    let d ← load cpath (src + 1)
    if d = nul then return cpath
    let cpath ← if c = slash ∧ d = dot then store cpath (src + 1) slash else .ok cpath
    handleSlashDot fuel cpath (src + 1)

/-- `while (*temp == '/') { temp++; count++; }`: the final `count`. -/
def countSlashes : Buffer → Except Panic ℕ
  | [] => .error (.undefined "unterminated string")
  | c :: r => if c = slash then do return (← countSlashes r) + 1 else .ok 0

/-- The pass that collapses consecutive separators. `cpath_end` is the end of the block. -/
def collapseSlashes : ℕ → Buffer → ℕ → Except Panic Buffer
  | 0, _, _ => .error pathPassStuck
  | fuel + 1, cpath, src => do
    let c ← load cpath src
    if c = nul then return cpath
    if c ≠ slash then collapseSlashes fuel cpath (src + 1)
    else
      let count ← countSlashes (cpath.drop src)
      if count = 1 then collapseSlashes fuel cpath (src + 1)
      else
        kassert "count > 1" (count > 1)
        let cpath ← memmove cpath (src + 1) (src + count) (cpath.length - (src + count))
        collapseSlashes fuel cpath (src + 1)

def nulOfSlash (c : UInt8) : UInt8 := if c = slash then nul else c

/-- `malloc n` tells whether the allocation of `n` bytes succeeds; without it the result
is the null pointer. The copy and the two terminators fill the block. -/
def canonicalizePath (malloc : ℕ → Bool) (path : CString) : Except Panic (Option Buffer) := do
  let path := skipSlashes path
  let pathlen := path.length
  if ¬ malloc (pathlen + 2) then return none
  let cpath := path ++ [nul, nul]
  let cpath ← handleDotDot cpath.length cpath 0 0 0
  let cpath ← handleSlashDot cpath.length cpath 0
  let cpath ← collapseSlashes cpath.length cpath 0
  let cpathLen ← strlen cpath
  let cpath := (cpath.take cpathLen).map nulOfSlash ++ cpath.drop cpathLen
  let cpath ← store cpath cpathLen nul
  let cpath ← store cpath (cpathLen + 1) nul
  return some cpath

/-- `canonicalized_path_strlen`: the bytes before the first two NULs in a row. -/
def canonicalizedPathStrlen : Buffer → Except Panic ℕ
  | a :: b :: path =>
    if a = nul ∧ b = nul then .ok 0 else do return (← canonicalizedPathStrlen (b :: path)) + 1
  | _ => .error (.undefined "unterminated canonicalized path")

/-- `canonicalized_path_startswith`. Both blocks hold the bytes compared. -/
def canonicalizedPathStartswith (path pre : Buffer) : Except Panic Bool := do
  let pathlen ← canonicalizedPathStrlen path
  let prefixlen ← canonicalizedPathStrlen pre
  if pathlen < prefixlen then return false
  return path.take prefixlen = pre.take prefixlen

/-- The components a walk with `while (*path) path += strlen(path) + 1` reads, after the
part `cur` of the component it is in. -/
def componentsFrom (cur : CString) : Buffer → List CString
  | [] => []
  | c :: path =>
    if c ≠ nul then componentsFrom (cur ++ [c]) path
    else if cur = [] then [] else cur :: componentsFrom [] path

def components (path : Buffer) : List CString := componentsFrom [] path

/-- The component list a canonicalized path encodes: one NUL stands for the leading `/`. -/
def encodedComponents (cpath : Buffer) : List CString := components (cpath.drop 1)

end Pi0Os.Vfs
