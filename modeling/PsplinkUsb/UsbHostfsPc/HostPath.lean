import PsplinkUsb.Library.Tokens

/-!
The path functions of `usbhostfs_pc/main.c`. A string is its bytes without the
terminating NUL.
-/

namespace PsplinkUsb.UsbHostfsPc.HostPath

open PsplinkUsb.Library.Tokens

abbrev Path := List UInt8

def slash : UInt8 := 47
def backslash : UInt8 := 92
def dot : Path := [46]
def dotdot : Path := [46, 46]

def pathMax : Nat := 4096
def maxTokens : Nat := 256
def maxHostdrives : Nat := 8

/-- The tokens the `strtok` loop of `gen_path` and `make_nocase` keeps. -/
def pathTokens (path : Path) : List Path :=
  (tokens slash path).take (maxTokens - 1)

/-- One round of the loop of `gen_path` over the tokens, on `outtokens`. -/
def pushToken (outtokens : List Path) (token : Path) : List Path :=
  if token = dot then outtokens
  else if token = dotdot then outtokens.dropLast
  else outtokens ++ [token]

def genPath (path : Path) (dir : Bool) : Path :=
  slash :: joined slash dir ((pathTokens path).foldl pushToken [])

def calcRating : Path → Path → Nat
  | a :: str1, b :: str2 => (if a = b then 1 else 0) + calcRating str1 str2
  | _, _ => 0

def tolower (c : UInt8) : UInt8 :=
  if 65 ≤ c ∧ c ≤ 90 then c + 32 else c

def sameNocase (a b : Path) : Prop := a.map tolower = b.map tolower

instance (a b : Path) : Decidable (sameNocase a b) :=
  inferInstanceAs (Decidable (a.map tolower = b.map tolower))

/-- The best match so far and its rating; `none` is the rating -1. -/
abbrev Match := Option (Path × Nat)

/-- One `readdir` entry of the loop of `find_nocase`. -/
def considerEntry (token : Path) (found : Match) (name : Path) : Match :=
  if sameNocase name token then
    let tmp := calcRating token name
    match found with
    | none => some (name, tmp)
    | some (_, rating) => if rating < tmp then some (name, tmp) else found
  else found

/-- `readNames` gives the entries of a directory, `none` when `opendir` fails. -/
def findNocase (readNames : Path → Option (List Path))
    (rootdir relpath token : Path) : Option Path :=
  let abspath := rootdir ++ relpath
  if pathMax < abspath.length then none
  else
    match readNames (abspath.take (pathMax - 1)) with
    | none => none
    | some names => (names.foldl (considerEntry token) none).map Prod.fst

/-- The loop of `make_nocase`; `none` when it stops before the last token. -/
def nocaseLoop (readNames : Path → Option (List Path)) (rootdir : Path) (dir : Bool) :
    Path → List Path → Option Path
  | retpath, [] => some retpath
  | retpath, token :: rest =>
      let sep := if dir ∨ rest ≠ [] then [slash] else []
      match findNocase readNames rootdir retpath token with
      | some name => nocaseLoop readNames rootdir dir (retpath ++ name ++ sep) rest
      | none =>
          -- the last component may be a file that is about to be created
          if rest ≠ [] then none
          else nocaseLoop readNames rootdir dir (retpath ++ token ++ sep) rest

def makeNocase (readNames : Path → Option (List Path)) (rootdir path : Path)
    (dir : Bool) : Path :=
  (nocaseLoop readNames rootdir dir [slash] (pathTokens path)).getD path

structure HostDrive where
  rootdir : Path
  currdir : Path

/-- What `make_path` reads besides its arguments. -/
structure PathEnv where
  drives : Fin maxHostdrives → HostDrive
  msslash : Bool
  nocase : Bool
  readNames : Path → Option (List Path)
  /-- `pthread_mutex_lock(&g_drivemtx)` succeeds. -/
  drivesLocked : Bool

def toDrive (drive : BitVec 32) : Option (Fin maxHostdrives) :=
  if h : drive.toNat < maxHostdrives then some ⟨drive.toNat, h⟩ else none

def convertSlashes (path : Path) : Path :=
  path.map fun c => if c = backslash then slash else c

/-- The `hostpath` that `make_path` puts below the root directory. -/
def relativePath (env : PathEnv) (rootdir path : Path) (dir : Bool) : Path :=
  let hostpath := genPath (if env.msslash then convertSlashes path else path) dir
  if env.nocase then makeNocase env.readNames rootdir hostpath dir else hostpath

/-- `make_path`; `none` stands for the result -1. -/
def makePath (env : PathEnv) (drive : BitVec 32) (path : Path) (dir : Bool) : Option Path :=
  match toDrive drive with
  | none => none
  | some drive =>
      if !env.drivesLocked then none
      else
        let current := (env.drives drive).currdir ++ path
        if pathMax ≤ current.length then none
        else
          let rootdir := (env.drives drive).rootdir
          let retpath := rootdir ++ slash :: relativePath env rootdir current dir
          if pathMax ≤ retpath.length then none else some (genPath retpath dir)

end PsplinkUsb.UsbHostfsPc.HostPath
