import PsplinkUsb.Library.LexicalPath
import PsplinkUsb.UsbHostfsPc.PathConfinement

namespace PsplinkUsb.UsbHostfsPc.PathResolution

open PsplinkUsb.Library.LexicalPath
open PsplinkUsb.Library.Tokens
open PsplinkUsb.UsbHostfsPc.HostPath
open PsplinkUsb.UsbHostfsPc.PathConfinement

/-- What a component does to the components kept so far. -/
def keep (kept : List Path) (c : Path) : List Path :=
  if c = [] then kept else enter dot dotdot kept c

def lexical (cs : List Path) : List Path := cs.foldl keep []

/-- An absolute path with these components. -/
def absolute (dir : Bool) (cs : List Path) : Path :=
  slash :: ([slash].intercalate cs ++ if dir ∧ cs ≠ [] then [slash] else [])

/-- The components that are not empty, as many of them as `gen_path` has room for. -/
def firstComponents (path : Path) : List Path :=
  ((path.splitOn slash).filter fun c => c ≠ []).take (maxTokens - 1)

variable {cs : List Path} {path : Path} {dir : Bool}

theorem lexical_eq (cs : List Path) :
    lexical cs = resolve dot dotdot (cs.filter fun c => c ≠ []) := by
  rw [lexical, resolve, List.foldl_filter]
  congr 1
  funext kept c
  rw [keep]
  by_cases hc : c = []
  · rw [if_pos hc, if_neg (by simp [hc])]
  · rw [if_neg hc, if_pos (by simp [hc])]

theorem filter_firstComponents (path : Path) :
    ((firstComponents path).filter fun c => c ≠ []) = firstComponents path := by
  apply List.filter_eq_self.mpr
  intro c hc
  rw [firstComponents] at hc
  exact (List.mem_filter.mp (List.mem_of_mem_take hc)).2

theorem joined_eq (cs : List Path) :
    joined slash dir cs = [slash].intercalate cs ++ if dir ∧ cs ≠ [] then [slash] else [] := by
  induction cs with
  | nil => simp [joined, List.intercalate]
  | cons c cs ih =>
      cases cs with
      | nil =>
          cases dir with
          | false => simp [joined, List.intercalate]
          | true => simp [joined, List.intercalate]
      | cons d cs =>
          rw [joined, ih]
          simp [List.intercalate]

theorem genPath_eq (path : Path) (dir : Bool) :
    genPath path dir = slash :: joined slash dir (resolve dot dotdot (pathTokens path)) := rfl

theorem genPath_of_normal (h : Normal dir cs path) :
    genPath path dir = path := by
  rw [genPath, h.pathTokens_eq, foldl_pushToken_of_plain h.2.1, List.nil_append, h.1]

theorem genPath_genPath (path : Path) (dir : Bool) :
    genPath (genPath path dir) dir = genPath path dir := by
  obtain ⟨cs, hcs⟩ := genPath_normal path dir
  exact genPath_of_normal hcs

/-- `gen_path` with the `strcpy` to `abspath`, of `PATH_MAX` bytes: no result if that is too
short. -/
def checkedGenPath (path : Path) (dir : Bool) : Option Path :=
  if path.length < pathMax then some (genPath path dir) else none

/-- `gen_path` leaves the path of the components that its first 255 come to, and leaves that
as it is. With no more components these are all. -/
theorem genPath_lexical (path : Path) (dir : Bool) (hlength : path.length < pathMax) :
    checkedGenPath path dir = some (absolute dir (lexical (firstComponents path))) ∧
      (((path.splitOn slash).filter fun c => c ≠ []).length < maxTokens →
        lexical (firstComponents path) = lexical (path.splitOn slash)) ∧
      ∀ path', checkedGenPath path dir = some path' → path'.length < pathMax →
        checkedGenPath path' dir = some path' := by
  refine ⟨?_, ?_, ?_⟩
  · rw [checkedGenPath, if_pos hlength, absolute, ← joined_eq, lexical_eq,
      filter_firstComponents, genPath_eq]
    rfl
  · intro hfew
    rw [lexical_eq, filter_firstComponents, lexical_eq, firstComponents,
      List.take_of_length_le (by omega)]
  · intro path' hpath' hlength'
    rw [checkedGenPath, if_pos hlength] at hpath'
    obtain rfl := Option.some.inj hpath'
    rw [checkedGenPath, if_pos hlength', genPath_genPath]

/-- `/a//./b/../c` -/
theorem genPath_lexical_up :
    let path : Path := [47, 97, 47, 47, 46, 47, 98, 47, 46, 46, 47, 99]
    checkedGenPath path true = some (absolute true (lexical (firstComponents path))) ∧
      absolute true (lexical (firstComponents path)) = [47, 97, 47, 99, 47] ∧
      checkedGenPath [47, 97, 47, 99, 47] true = some [47, 97, 47, 99, 47] := by
  obtain ⟨hpath, -, hagain⟩ :=
    genPath_lexical [47, 97, 47, 47, 46, 47, 98, 47, 46, 46, 47, 99] true (by decide)
  exact ⟨hpath, by decide, hagain _ hpath (by decide)⟩

/-- `x/x/…/x` with 256 components. -/
def manyComponents : Path := (List.replicate 256 [120, slash]).flatten

/-- Of 256 components, 255 are left. -/
theorem genPath_drops_component :
    manyComponents.length < pathMax ∧
      checkedGenPath manyComponents false ≠
        some (absolute false (lexical (manyComponents.splitOn slash))) := by
  constructor
  · decide +kernel
  · decide +kernel

end PsplinkUsb.UsbHostfsPc.PathResolution
