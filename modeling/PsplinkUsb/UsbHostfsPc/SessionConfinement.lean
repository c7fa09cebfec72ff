import PsplinkUsb.UsbHostfsPc.DriveMap
import PsplinkUsb.UsbHostfsPc.FileTable

namespace PsplinkUsb.UsbHostfsPc.SessionConfinement

open PsplinkUsb.Library.Duplex
open PsplinkUsb.Library.Tokens
open PsplinkUsb.HostFs.Wire
open PsplinkUsb.HostFs.Exchange
open PsplinkUsb.UsbHostfsPc.HostPath
open PsplinkUsb.UsbHostfsPc.OsCalls
open PsplinkUsb.UsbHostfsPc.HostFiles
open PsplinkUsb.UsbHostfsPc.Handlers
open PsplinkUsb.UsbHostfsPc.PathConfinement
open PsplinkUsb.UsbHostfsPc.PlainFile
open PsplinkUsb.UsbHostfsPc.FileTable
open PsplinkUsb.UsbHostfsPc.DriveMap

/-- The path is absolute, starts with the names of the root directory, and goes down only. -/
def Within (root path : Path) : Prop :=
  path.head? = some slash ∧ tokens slash root <+: tokens slash path ∧
    ∀ name ∈ tokens slash path, name ≠ dot ∧ name ≠ dotdot

variable {σ : Type}

/-- The two systems do the same, but for calls on paths that are not allowed. An entry that
`scandir` gives for an allowed path is looked at whatever its name, `..` with the others. -/
structure AgreeOn (allowed : Path → Prop) (os os' : HostOs σ) : Prop where
  openFile : ∀ path, allowed path → os.openFile path = os'.openFile path
  unlink : ∀ path, allowed path → os.unlink path = os'.unlink path
  rmdir : ∀ path, allowed path → os.rmdir path = os'.rmdir path
  mkdir : ∀ path, allowed path → os.mkdir path = os'.mkdir path
  rename : ∀ path path', allowed path → allowed path' →
    os.rename path path' = os'.rename path path'
  chmod : ∀ path, allowed path → os.chmod path = os'.chmod path
  utime : ∀ path, allowed path → os.utime path = os'.utime path
  stat : ∀ path, allowed path → os.stat path = os'.stat path
  statvfs : ∀ path, allowed path → os.statvfs path = os'.statvfs path
  scandir : ∀ path, allowed path → os.scandir path = os'.scandir path
  readNames : ∀ path, allowed path → os.readNames path = os'.readNames path
  entries : ∀ path names s, allowed path → os.scandir path s = .ok names →
    ∀ name ∈ names, ∀ entry ∈ statPath (some path) name, os.stat entry = os'.stat entry
  close : os.close = os'.close
  read : os.read = os'.read
  write : os.write = os'.write
  lseek : os.lseek = os'.lseek
  localtime : os.localtime = os'.localtime
  mktime : os.mktime = os'.mktime
  mallocSucceeds : os.mallocSucceeds = os'.mallocSucceeds
  drivesLocked : os.drivesLocked = os'.drivesLocked
  errno : os.errno = os'.errno

/-- What can happen in a session: a packet from the PSP with the bytes that follow it, a mount or
an option of the shell on the PC, and the end of the connection with the start of the next. -/
inductive Action where
  | packet (data input : Bytes)
  | mount (env : MountEnv) (num : ℤ) (dir : Path)
  | options (msslash nocase : Bool)
  | reconnect

/-- The packets that are sent, and the state that is left. -/
def step (os : HostOs σ) (h : Host σ) : Action → List Bytes × Host σ
  | .packet data input => served (startHostfs os h data) input h
  | .mount env num dir => ([], { h with drives := (addDrive env num dir h.drives).2 })
  | .options msslash nocase => ([], { h with msslash := msslash, nocase := nocase })
  | .reconnect => ([], initHostfs (closeHostfs os h))

def session (os : HostOs σ) : Host σ → List Action → List (List Bytes) × Host σ
  | h, [] => ([], h)
  | h, a :: actions =>
      let r := session os (step os h a).2 actions
      ((step os h a).1 :: r.1, r.2)

/-- A root directory as `parse_args` and `add_drive` leave it. -/
def Rooted (h : Host σ) : Prop := ∀ d, ∃ dir, (h.drives d).rootdir = genPath dir false

/-- Paths below the root directory that a drive has at some time of the session. -/
def Mounted (os : HostOs σ) (h : Host σ) (actions : List Action) (path : Path) : Prop :=
  ∃ before after d, actions = before ++ after ∧
    Within (((session os h before).2.drives d).rootdir) path

section Paths

variable {rootCs cs names ts : List Path} {root path relpath : Path} {dir dir' : Bool}

theorem within_of_tokens (hhead : path.head? = some slash) (hroot : Normal dir rootCs root)
    (htokens : tokens slash path = rootCs ++ cs) (hcs : ∀ c ∈ cs, Plain c) : Within root path := by
  refine ⟨hhead, ?_, fun name hname => ?_⟩
  · rw [htokens, hroot.tokens_eq]
    exact List.prefix_append rootCs cs
  · rw [htokens] at hname
    have hplain : Plain name := (List.mem_append.mp hname).elim (hroot.2.1 name) (hcs name)
    exact ⟨hplain.ne_dot, hplain.ne_dotdot⟩

theorem within_root (hroot : Normal dir rootCs root) : Within root root := by
  have htokens : tokens slash root = rootCs ++ [] := by rw [hroot.tokens_eq, List.append_nil]
  refine within_of_tokens ?_ hroot htokens (fun c hc => absurd hc List.not_mem_nil)
  rw [hroot.1]
  rfl

theorem joined_concat (names : List Path) (name : Path) :
    joined slash true (names ++ [name]) = joined slash true names ++ name ++ [slash] := by
  induction names with
  | nil => rfl
  | cons t rest ih =>
      cases rest with
      | nil => simp [joined]
      | cons u rest =>
          rw [List.cons_append, List.cons_append, joined, joined, ← List.cons_append, ih]
          simp

theorem within_abspath (hroot : Normal dir rootCs root) (hnames : ∀ c ∈ names, Plain c)
    (hlength : (root ++ slash :: joined slash true names).length ≤ pathMax) :
    Within root ((root ++ slash :: joined slash true names).take (pathMax - 1)) := by
  have hhead : ((root ++ slash :: joined slash true names).take (pathMax - 1)).head? =
      some slash := by
    rw [hroot.1]
    rfl
  have htokens : tokens slash (root ++ slash :: joined slash true names) = rootCs ++ names := by
    rw [tokens_append_sep, hroot.tokens_eq, tokens_joined_of_plain hnames]
  refine within_of_tokens hhead hroot ?_ hnames
  rcases Nat.lt_or_eq_of_le hlength with hlt | heq
  · rw [List.take_of_length_le (Nat.le_sub_one_of_lt hlt), htokens]
  · -- `snprintf` leaves out the separator at the end
    obtain ⟨front, hfront⟩ : ∃ front, slash :: joined slash true names = front ++ [slash] := by
      rcases List.eq_nil_or_concat names with rfl | ⟨before, last, rfl⟩
      · exact ⟨[], rfl⟩
      · exact ⟨slash :: (joined slash true before ++ last), by
          rw [List.concat_eq_append, joined_concat]
          rfl⟩
    rw [hfront, ← List.append_assoc] at heq htokens ⊢
    rw [List.length_append, List.length_singleton] at heq
    rw [List.take_left' (Nat.eq_sub_of_add_eq heq)]
    rwa [tokens_append_sep, tokens_nil, List.append_nil] at htokens

theorem nocaseLoop_congr {readNames readNames' : Path → Option (List Path)}
    (hroot : Normal dir' rootCs root) (hread : ∀ path, Within root path →
      readNames path = readNames' path)
    (hnames : ∀ c ∈ names, Plain c) (hts : ∀ c ∈ ts, Plain c)
    (hpath : ts ≠ [] → relpath = slash :: joined slash true names) :
    nocaseLoop readNames root dir relpath ts = nocaseLoop readNames' root dir relpath ts := by
  induction ts generalizing names relpath with
  | nil => rfl
  | cons t ts ih =>
      obtain rfl := hpath (List.cons_ne_nil t ts)
      have hfind : findNocase readNames root (slash :: joined slash true names) t =
          findNocase readNames' root (slash :: joined slash true names) t := by
        simp only [findNocase]
        split
        · rfl
        · rename_i hlength
          rw [hread _ (within_abspath hroot hnames (Nat.le_of_not_lt hlength))]
      have ht := hts t (List.mem_cons_self ..)
      have hrest : ∀ c ∈ ts, Plain c := fun c hc => hts c (List.mem_cons_of_mem t hc)
      have hnext (name : Path) (hname : Plain name) :
          nocaseLoop readNames root dir (slash :: joined slash true names ++ name ++
              if dir ∨ ts ≠ [] then [slash] else []) ts =
            nocaseLoop readNames' root dir (slash :: joined slash true names ++ name ++
              if dir ∨ ts ≠ [] then [slash] else []) ts := by
        refine @ih (names ++ [name]) _ (fun c hc => ?_) hrest fun hne => ?_
        · rcases List.mem_append.mp hc with hc | hc
          · exact hnames c hc
          · exact List.mem_singleton.mp hc ▸ hname
        · rw [if_pos (.inr hne), joined_concat]
          rfl
      rw [nocaseLoop, nocaseLoop, ← hfind]
      cases hfound : findNocase readNames root (slash :: joined slash true names) t with
      | none =>
          dsimp only
          rw [hnext t ht]
      | some name => exact hnext name (plain_of_sameNocase ht (findNocase_sameNocase hfound))

theorem makeNocase_congr {readNames readNames' : Path → Option (List Path)}
    (hroot : Normal dir' rootCs root) (hread : ∀ path, Within root path →
      readNames path = readNames' path) (hpath : Normal dir cs path) :
    makeNocase readNames root path dir = makeNocase readNames' root path dir := by
  have hloop := @nocaseLoop_congr rootCs [] cs root [slash] dir dir' readNames readNames' hroot
    hread (fun c hc => absurd hc List.not_mem_nil) hpath.2.1 fun _ => rfl
  rw [makeNocase, makeNocase, hpath.pathTokens_eq, hloop]

end Paths

/-! ### The functions on paths -/

variable {os os' : HostOs σ} {allowed : Path → Prop} {h : Host σ} {drive : Word} {path : Path}
  {dir : Bool}

theorem Rooted.normal (hrooted : Rooted h) (d : Fin maxHostdrives) :
    ∃ cs, Normal false cs (h.drives d).rootdir := by
  obtain ⟨root, hroot⟩ := hrooted d
  rw [hroot]
  exact genPath_normal root false

/-- What is below a root directory that a drive has. -/
def Below (h : Host σ) (path : Path) : Prop := ∃ d, Within (h.drives d).rootdir path

theorem makePath_congr (hagree : AgreeOn (Below h) os os') (hrooted : Rooted h) :
    makePath (h.pathEnv os) drive path dir = makePath (h.pathEnv os') drive path dir := by
  rw [makePath, makePath]
  cases toDrive drive with
  | none => rfl
  | some d =>
      obtain ⟨rootCs, hroot⟩ := hrooted.normal d
      have hlocked : (h.pathEnv os).drivesLocked = (h.pathEnv os').drivesLocked :=
        congrFun hagree.drivesLocked h.os
      have hrelative (current : Path) :
          relativePath (h.pathEnv os) (h.drives d).rootdir current dir =
            relativePath (h.pathEnv os') (h.drives d).rootdir current dir := by
        obtain ⟨cs, hcs⟩ :=
          genPath_normal (if h.msslash then convertSlashes current else current) dir
        have hread (path : Path) (hpath : Within (h.drives d).rootdir path) :
            (h.pathEnv os).readNames path = (h.pathEnv os').readNames path :=
          congrFun (hagree.readNames path ⟨d, hpath⟩) h.os
        rw [relativePath, relativePath]
        exact if_congr Iff.rfl (makeNocase_congr hroot hread hcs) rfl
      have hdrives (os : HostOs σ) : (h.pathEnv os).drives = h.drives := rfl
      simp only [hdrives, hlocked, hrelative]

theorem makePath_below {retpath : Path} (hrooted : Rooted h)
    (hret : makePath (h.pathEnv os) drive path dir = some retpath) : Below h retpath := by
  cases hdrive : toDrive drive with
  | none => simp [makePath, hdrive] at hret
  | some d =>
      obtain ⟨rootCs, hroot⟩ := hrooted.normal d
      obtain ⟨relCs, hrelative⟩ := relativePath_normal (h.pathEnv os) (h.drives d).rootdir
        ((h.drives d).currdir ++ path) dir
      have hbelow := genPath_below hroot hrelative
      have hpath := makePath_some hdrive hret
      simp only [Host.pathEnv] at hpath hbelow
      rw [← hpath] at hbelow
      refine ⟨d, within_of_tokens ?_ hroot hbelow.tokens_eq fun c hc =>
        hbelow.2.1 c (List.mem_append_right rootCs hc)⟩
      rw [hpath]
      rfl

/-! ### The functions on files and directories -/

theorem isDir_congr (hagree : AgreeOn allowed os os') (hpath : allowed path) (s : σ) :
    isDir os path s = isDir os' path s := by
  rw [isDir, isDir, hagree.stat path hpath]

theorem openFile_congr (hagree : AgreeOn (Below h) os os') (hrooted : Rooted h)
    (mode mask : Word) :
    openFile os drive path mode mask h = openFile os' drive path mode mask h := by
  rw [openFile, openFile, ← makePath_congr hagree hrooted]
  cases hret : makePath (h.pathEnv os) drive path false with
  | none => rfl
  | some fullpath =>
      have hbelow := makePath_below hrooted hret
      simp only [isDir_congr hagree hbelow, hagree.openFile fullpath hbelow, hagree.close]

theorem fillStat_congr (hagree : AgreeOn allowed os os') {dirname : Option Path} {name : Path}
    (hstat : ∀ entry ∈ statPath dirname name, os.stat entry = os'.stat entry) (s : σ) :
    fillStat os dirname name s = fillStat os' dirname name s := by
  have htime : fillTime os = fillTime os' := by
    funext t
    rw [fillTime, fillTime, hagree.localtime]
  rw [fillStat, fillStat]
  cases hentry : statPath dirname name with
  | none => rfl
  | some entry => simp only [hstat entry hentry, htime]

theorem fillDirents_congr (hagree : AgreeOn allowed os os') {fulldir : Path} {names : List Path}
    (hstat : ∀ name ∈ names, ∀ entry ∈ statPath (some fulldir) name, os.stat entry = os'.stat entry)
    (s : σ) : fillDirents os fulldir s names = fillDirents os' fulldir s names := by
  induction names with
  | nil => rfl
  | cons name names ih =>
      obtain ⟨hname, hnames⟩ := List.forall_mem_cons.mp hstat
      rw [fillDirents, fillDirents, fillStat_congr hagree hname, ih hnames]

theorem dirOpen_congr (hagree : AgreeOn (Below h) os os') (hrooted : Rooted h) :
    dirOpen os drive path h = dirOpen os' drive path h := by
  rw [dirOpen, dirOpen, ← makePath_congr hagree hrooted]
  cases findFreeDir h with
  | none => rfl
  | some did =>
      cases hret : makePath (h.pathEnv os) drive path true with
      | none => rfl
      | some fulldir =>
          have hbelow := makePath_below hrooted hret
          simp only [← hagree.scandir fulldir hbelow, hagree.errno, hagree.mallocSucceeds]
          cases hnames : os.scandir fulldir (setDir did DirHandle.closed h).os with
          | error e => rfl
          | ok names =>
              have hentries := hagree.entries fulldir names _ hbelow hnames
              cases names with
              | nil => rfl
              | cons name names =>
                  dsimp only
                  rw [fillDirents_congr hagree hentries]

theorem fixedWrite_congr (hagree : AgreeOn allowed os os') (fd : ℕ) (data : Bytes)
    (byteswrite : ℕ) (s : σ) :
    fixedWrite os fd data byteswrite s = fixedWrite os' fd data byteswrite s := by
  have hwrite' {data : Bytes} {s s' : σ} {result : Except Errno ℕ}
      (hwrite : os.write fd data s = (result, s')) : os'.write fd data s = (result, s') :=
    hagree.write ▸ hwrite
  induction data, byteswrite, s using fixedWrite.induct os fd with
  | case1 byteswrite s => rw [fixedWrite_nil, fixedWrite_nil]
  | case2 data byteswrite s hdata s' hwrite ih =>
      rw [fixedWrite_error hdata hwrite, fixedWrite_error hdata (hwrite' hwrite), if_pos rfl,
        if_pos rfl, ih]
  | case3 data byteswrite s hdata e s' hwrite he =>
      rw [fixedWrite_error hdata hwrite, fixedWrite_error hdata (hwrite' hwrite), if_neg he,
        if_neg he]
  | case4 data byteswrite s hdata s' hwrite =>
      rw [fixedWrite_zero hdata hwrite, fixedWrite_zero hdata (hwrite' hwrite)]
  | case5 data byteswrite s hdata n s' hwrite ih =>
      rw [fixedWrite_pos hdata hwrite (Nat.succ_ne_zero n),
        fixedWrite_pos hdata (hwrite' hwrite) (Nat.succ_ne_zero n), ih]

theorem fixedRead_congr (hagree : AgreeOn allowed os os') (fd left : ℕ) (data : Bytes) (s : σ) :
    fixedRead os fd left data s = fixedRead os' fd left data s := by
  have hread' {left : ℕ} {s s' : σ} {result : Except Errno Bytes}
      (hread : os.read fd left s = (result, s')) : os'.read fd left s = (result, s') :=
    hagree.read ▸ hread
  induction left, data, s using fixedRead.induct os fd with
  | case1 data s => rw [fixedRead_zero, fixedRead_zero]
  | case2 left data s hleft s' hread ih =>
      rw [fixedRead_error hleft hread, fixedRead_error hleft (hread' hread), if_pos rfl,
        if_pos rfl, ih]
  | case3 left data s hleft e s' hread he =>
      rw [fixedRead_error hleft hread, fixedRead_error hleft (hread' hread), if_neg he, if_neg he]
  | case4 left data s hleft s' hread =>
      rw [fixedRead_nil hleft hread, fixedRead_nil hleft (hread' hread)]
  | case5 left data s hleft b bytes s' hread ih =>
      rw [fixedRead_cons hleft hread (List.cons_ne_nil b bytes),
        fixedRead_cons hleft (hread' hread) (List.cons_ne_nil b bytes), ih]

theorem pspChstat_congr (hagree : AgreeOn allowed os os') (hpath : allowed path) (cmd : Bytes)
    (s : σ) : pspChstat os path cmd s = pspChstat os' path cmd s := by
  have hset (stime : Tm) (set : TimeAttr) (s : σ) :
      pspSettime os path stime set s = pspSettime os' path stime set s := by
    rw [pspSettime, pspSettime, hagree.stat path hpath, hagree.utime path hpath, hagree.mktime]
  have htime (bits mask : Word) (stime : Tm) (set : TimeAttr) (s : σ) :
      chstatTime os path bits mask stime set s = chstatTime os' path bits mask stime set s := by
    rw [chstatTime, chstatTime, hset]
  rw [pspChstat, pspChstat]
  simp only [hagree.chmod path hpath, htime]

theorem getDriveInfo_congr (hagree : AgreeOn (Below h) os os') (hrooted : Rooted h) :
    getDriveInfo os drive h = getDriveInfo os' drive h := by
  rw [getDriveInfo, getDriveInfo]
  cases toDrive drive with
  | none => rfl
  | some d =>
      obtain ⟨rootCs, hroot⟩ := hrooted.normal d
      dsimp only
      rw [hagree.drivesLocked, hagree.statvfs _ ⟨d, within_root hroot⟩]

/-! ### The handlers -/

section Handlers

variable {cmd : Bytes} {request answer : HostFsCommand}

theorem handle_congr {action action' : Bytes → Host σ → Reply × Host σ}
    (haction : action cmd h = action' cmd h) :
    handle request answer action h cmd = handle request answer action' h cmd := by
  rw [handle, handle, haction]

theorem handleData_congr {action action' : Bytes → Bytes → Host σ → Reply × Host σ}
    (haction : ∀ data, action cmd data h = action' cmd data h) :
    handleData request action h cmd = handleData request action' h cmd := by
  simp only [handleData, haction]

theorem handleOptionalData_congr {action action' : Bytes → Bytes → Host σ → Reply × Host σ}
    (haction : ∀ data, action cmd data h = action' cmd data h) :
    handleOptionalData request action h cmd = handleOptionalData request action' h cmd := by
  simp only [handleOptionalData, haction]

theorem onPath_congr (hagree : AgreeOn (Below h) os os') (hrooted : Rooted h)
    {call call' : Path → σ → Except Errno Unit × σ}
    (hcall : ∀ path, Below h path → call path = call' path) (fsnum : Word) (data : Bytes) :
    onPath os call fsnum data h = onPath os' call' fsnum data h := by
  rw [onPath, onPath, ← makePath_congr hagree hrooted]
  cases hret : makePath (h.pathEnv os) fsnum (cString data) false with
  | none => rfl
  | some fullpath =>
      dsimp only
      rw [hcall fullpath (makePath_below hrooted hret)]

theorem doHostfs_congr (hagree : AgreeOn (Below h) os os') (hrooted : Rooted h) (cmd : Bytes) :
    doHostfs os h cmd = doHostfs os' h cmd := by
  rw [doHostfs, doHostfs]
  cases HostFsCommand.ofCode (HostFsCmd.decode cmd).command with
  | none => rfl
  | some command =>
      cases command with
      | hello | bye | dclose | dread | chdir | ioctl => rfl
      | «open» => exact handleData_congr fun data => by rw [openFile_congr hagree hrooted]
      | close => exact handle_congr (by simp only [hagree.close])
      | write =>
          refine handleData_congr fun data => ?_
          rw [writeFile, writeFile]
          simp only [fixedWrite_congr hagree]
      | read =>
          rw [handleRead, handleRead, readFile, readFile]
          simp only [fixedRead_congr hagree]
      | lseek => exact handle_congr (by simp only [hagree.lseek])
      | dopen => exact handleData_congr fun data => by rw [dirOpen_congr hagree hrooted]
      | remove => exact handleData_congr fun data => onPath_congr hagree hrooted hagree.unlink _ _
      | rmdir => exact handleData_congr fun data => onPath_congr hagree hrooted hagree.rmdir _ _
      | mkdir =>
          exact handleData_congr fun data => onPath_congr hagree hrooted
            (fun path hpath => by rw [hagree.mkdir path hpath]) _ _
      | rename =>
          refine handleData_congr fun data => ?_
          simp only [← makePath_congr hagree hrooted]
          split
          · rename_i hold hnew
            rw [hagree.rename _ _ (makePath_below hrooted hold) (makePath_below hrooted hnew)]
          · rfl
      | getstat =>
          refine handleData_congr fun data => ?_
          simp only [← makePath_congr hagree hrooted]
          split
          · rfl
          · rename_i fullpath hret
            have hbelow := makePath_below hrooted hret
            have hstat : ∀ entry ∈ statPath none fullpath, os.stat entry = os'.stat entry := by
              intro entry hentry
              obtain rfl := Option.some.inj hentry
              exact hagree.stat _ hbelow
            rw [fillStat_congr hagree hstat]
      | chstat =>
          refine handleData_congr fun data => ?_
          simp only [← makePath_congr hagree hrooted]
          split
          · rfl
          · rename_i fullpath hret
            rw [pspChstat_congr hagree (makePath_below hrooted hret)]
      | devctl =>
          exact handleOptionalData_congr fun data => by rw [getDriveInfo_congr hagree hrooted]

/-- A request leaves the root directories as they are. -/
def SameRoots (h h' : Host σ) : Prop := ∀ d, (h'.drives d).rootdir = (h.drives d).rootdir

theorem sameRoots_of_drives {h' : Host σ} (hdrives : h'.drives = h.drives) : SameRoots h h' :=
  fun d => by rw [hdrives]

/-- Whatever a process receives, it leaves the root directories of a state as they are. -/
def Leaves (h : Host σ) (p : Proc UInt8 (Host σ)) : Prop :=
  ∀ input, ∀ o ∈ p.feed input, SameRoots h o.result

theorem leaves_done : Leaves h (.done h) := by
  intro input o ho
  obtain rfl := Option.some.inj ho
  exact fun _ => rfl

theorem leaves_respond {r : Reply × Host σ} (hr : SameRoots h r.2) :
    Leaves h (respond answer r) := by
  intro input o ho
  rw [feed_respond] at ho
  obtain rfl := Option.some.inj ho
  exact hr

theorem leaves_recv {n : ℕ} {next : Bytes → Proc UInt8 (Host σ)}
    (hnext : ∀ data, Leaves h (next data)) : Leaves h (.recv n next) := by
  intro input o ho
  rw [Proc.feed] at ho
  split at ho
  · exact hnext _ _ o ho
  · cases ho

theorem leaves_handle {action : Bytes → Host σ → Reply × Host σ}
    (haction : SameRoots h (action cmd h).2) : Leaves h (handle request answer action h cmd) := by
  rw [handle]
  split
  · exact leaves_done
  · exact leaves_respond haction

theorem leaves_handleData {action : Bytes → Bytes → Host σ → Reply × Host σ}
    (haction : ∀ data, SameRoots h (action cmd data h).2) :
    Leaves h (handleData request action h cmd) := by
  rw [handleData]
  split
  · exact leaves_done
  · split
    · exact leaves_done
    · exact leaves_recv fun data => leaves_respond (haction data)

theorem leaves_handleOptionalData {action : Bytes → Bytes → Host σ → Reply × Host σ}
    (haction : ∀ data, SameRoots h (action cmd data h).2) :
    Leaves h (handleOptionalData request action h cmd) := by
  rw [handleOptionalData]
  split
  · exact leaves_done
  · split
    · exact leaves_recv fun data => leaves_respond (haction data)
    · exact leaves_respond (haction [])

theorem drives_openFile (mode mask : Word) :
    (openFile os drive path mode mask h).2.drives = h.drives := by
  rw [openFile]
  split
  · rfl
  · split
    · rfl
    · dsimp only
      split
      · rfl
      · split
        · rfl
        · split
          · rfl
          · rfl

theorem drives_dirOpen : (dirOpen os drive path h).2.drives = h.drives := by
  rw [dirOpen]
  split
  · rfl
  · split
    · rfl
    · dsimp only
      split
      · rfl
      · rfl
      · split
        · rfl
        · split
          · rfl
          · rfl

theorem drives_dirClose (did : Word) : (dirClose did h).2.drives = h.drives := by
  rw [dirClose]
  split
  · rfl
  · split
    · rfl
    · rfl

theorem drives_onPath (call : Path → σ → Except Errno Unit × σ) (fsnum : Word) (data : Bytes) :
    (onPath os call fsnum data h).2.drives = h.drives := by
  rw [onPath]
  split
  · rfl
  · rfl

theorem leaves_doHostfs (cmd : Bytes) : Leaves h (doHostfs os h cmd) := by
  rw [doHostfs]
  cases HostFsCommand.ofCode (HostFsCmd.decode cmd).command with
  | none => exact leaves_done
  | some command =>
      cases command with
      | hello => exact leaves_respond fun _ => rfl
      | bye => exact leaves_done
      | «open» => exact leaves_handleData fun data => sameRoots_of_drives (drives_openFile _ _)
      | close =>
          refine leaves_handle (sameRoots_of_drives ?_)
          split
          · rfl
          · split
            · rfl
            · rfl
      | write =>
          refine leaves_handleData fun data => sameRoots_of_drives ?_
          rw [writeFile]
          split
          · rfl
          · split
            · rfl
            · rfl
      | read =>
          have hread : (readFile os cmd h).2.drives = h.drives := by
            rw [readFile]
            split
            · rfl
            · split
              · rfl
              · rfl
          dsimp only
          rw [handleRead]
          split
          · exact leaves_done
          · split
            · exact leaves_done
            · exact leaves_respond (sameRoots_of_drives hread)
      | lseek =>
          refine leaves_handle (sameRoots_of_drives ?_)
          dsimp only
          split
          · rfl
          · split
            · rfl
            · rfl
      | dopen => exact leaves_handleData fun data => sameRoots_of_drives drives_dirOpen
      | dclose => exact leaves_handle (sameRoots_of_drives (drives_dirClose _))
      | dread =>
          refine leaves_handle (sameRoots_of_drives ?_)
          rw [readDir]
          split
          · rfl
          · dsimp only
            split
            · split
              · rfl
              · rfl
            · rfl
      | remove | rmdir | mkdir =>
          exact leaves_handleData fun data => sameRoots_of_drives (drives_onPath _ _ _)
      | chdir =>
          refine leaves_handleData fun data d => ?_
          split
          · rfl
          · rename_i fsnum hdrive
            dsimp only
            rcases eq_or_ne d fsnum with rfl | hne
            · rw [Function.update_self]
            · rw [Function.update_of_ne hne]
      | rename =>
          refine leaves_handleData fun data => sameRoots_of_drives ?_
          dsimp only
          split
          · rfl
          · rfl
      | getstat =>
          refine leaves_handleData fun data => sameRoots_of_drives ?_
          split
          · rfl
          · split
            · rfl
            · rfl
      | chstat =>
          refine leaves_handleData fun data => sameRoots_of_drives ?_
          split
          · rfl
          · rfl
      | ioctl => exact leaves_handleOptionalData fun data _ => rfl
      | devctl =>
          refine leaves_handleOptionalData fun data => sameRoots_of_drives ?_
          split
          · split
            · rfl
            · rfl
          · rfl

end Handlers

/-! ### Sessions -/

theorem AgreeOn.mono {allowed' : Path → Prop} (h : AgreeOn allowed os os')
    (hle : ∀ path, allowed' path → allowed path) : AgreeOn allowed' os os' where
  openFile path hpath := h.openFile path (hle path hpath)
  unlink path hpath := h.unlink path (hle path hpath)
  rmdir path hpath := h.rmdir path (hle path hpath)
  mkdir path hpath := h.mkdir path (hle path hpath)
  rename path path' hpath hpath' := h.rename path path' (hle path hpath) (hle path' hpath')
  chmod path hpath := h.chmod path (hle path hpath)
  utime path hpath := h.utime path (hle path hpath)
  stat path hpath := h.stat path (hle path hpath)
  statvfs path hpath := h.statvfs path (hle path hpath)
  scandir path hpath := h.scandir path (hle path hpath)
  readNames path hpath := h.readNames path (hle path hpath)
  entries path names s hpath := h.entries path names s (hle path hpath)
  close := h.close
  read := h.read
  write := h.write
  lseek := h.lseek
  localtime := h.localtime
  mktime := h.mktime
  mallocSucceeds := h.mallocSucceeds
  drivesLocked := h.drivesLocked
  errno := h.errno

theorem closeHostfs_congr (hagree : AgreeOn allowed os os') :
    closeHostfs os h = closeHostfs os' h := by
  have hround : closeIfOpened os = closeIfOpened os' := by
    funext h fid
    rw [closeIfOpened, closeIfOpened, closeFile, closeFile, hagree.close]
  rw [closeHostfs, closeHostfs, closeFiles, closeFiles, hround]

theorem drives_foldl {α : Type} {round : Host σ → α → Host σ}
    (hround : ∀ h x, (round h x).drives = h.drives) (l : List α) (h : Host σ) :
    (l.foldl round h).drives = h.drives := by
  induction l generalizing h with
  | nil => rfl
  | cons x l ih => rw [List.foldl_cons, ih, hround]

theorem drives_closeHostfs : (closeHostfs os h).drives = h.drives := by
  rw [closeHostfs, closeDirs, drives_foldl, closeFiles, drives_foldl]
  · intro h fid
    rw [closeIfOpened]
    split
    · rfl
    · rfl
  · intro h did
    rw [closeDirIfOpened]
    split
    · exact drives_dirClose _
    · rfl

theorem leaves_startHostfs (data : Bytes) : Leaves h (startHostfs os h data) := by
  rw [startHostfs]
  split
  · exact leaves_done
  · split
    · exact leaves_doHostfs data
    · exact leaves_done

theorem Leaves.served {p : Proc UInt8 (Host σ)} (hp : Leaves h p) (input : Bytes) :
    SameRoots h (served p input h).2 := by
  rw [FileTable.served]
  split
  · rename_i o ho
    exact hp input o ho
  · exact fun _ => rfl

theorem step_congr (hagree : AgreeOn (Below h) os os') (hrooted : Rooted h) (a : Action) :
    step os h a = step os' h a := by
  cases a with
  | packet data input =>
      have hstart : startHostfs os h data = startHostfs os' h data := by
        rw [startHostfs, startHostfs, doHostfs_congr hagree hrooted]
      rw [step, step, hstart]
  | mount env num dir => rfl
  | options msslash nocase => rfl
  | reconnect => rw [step, step, closeHostfs_congr hagree]

theorem step_rooted (hrooted : Rooted h) (a : Action) : Rooted (step os h a).2 := by
  cases a with
  | packet data input =>
      intro d
      rw [step, (leaves_startHostfs data).served input d]
      exact hrooted d
  | mount env num dir =>
      intro d
      simp only [step, addDrive]
      split
      · split
        · split
          · dsimp only
            rcases eq_or_ne d ⟨num.toNat, by omega⟩ with rfl | hne
            · rw [Function.update_self]
              exact ⟨_, rfl⟩
            · rw [Function.update_of_ne hne]
              exact hrooted d
          · exact hrooted d
        · exact hrooted d
      · exact hrooted d
  | options msslash nocase => exact hrooted
  | reconnect =>
      intro d
      obtain ⟨dir, hdir⟩ := hrooted d
      refine ⟨dir, ?_⟩
      simp only [step, initHostfs, drives_closeHostfs]
      exact hdir

/-- Two systems that do the same below the root directories that the drives have in the course of
a session cannot be told apart by it: the answers are the same, and so is what is left. -/
theorem session_confined (os os' : HostOs σ) (h : Host σ) (actions : List Action)
    (hrooted : Rooted h) (hagree : AgreeOn (Mounted os h actions) os os') :
    session os h actions = session os' h actions := by
  induction actions generalizing h with
  | nil => rfl
  | cons a actions ih =>
      have hnow : AgreeOn (Below h) os os' :=
        hagree.mono fun path ⟨d, hpath⟩ => ⟨[], a :: actions, d, rfl, hpath⟩
      have hlater : AgreeOn (Mounted os (step os h a).2 actions) os os' :=
        hagree.mono fun path ⟨before, after, d, happend, hpath⟩ =>
          ⟨a :: before, after, d, by rw [happend, List.cons_append], hpath⟩
      rw [session, session, ih _ (step_rooted hrooted a) hlater, ← step_congr hnow hrooted a]

def srvHost : Host FileState where
  openFiles := fun _ => FileHandle.closed
  openDirs := fun _ => DirHandle.closed
  drives := fun _ => { rootdir := [47, 115, 114, 118], currdir := [slash] }
  msslash := false
  nocase := false
  os := { content := [], offset := 0, script := [] }

/-- Every file can be removed. -/
def laxOs : HostOs FileState :=
  { fileOs with unlink := fun _ f => (.ok (), { f with offset := f.offset + 1 }) }

/-- Every file but `/etc` can be removed. -/
def guardedOs : HostOs FileState :=
  { fileOs with
    unlink := fun path f =>
      if path = [47, 101, 116, 99] then (.error enoent, f)
      else (.ok (), { f with offset := f.offset + 1 }) }

/-- The PSP asks for `/../etc` to be removed. -/
def removeEtc : Action :=
  .packet (HostFsCmd.encode ⟨hostfsMagic, HostFsCommand.remove.code, 8⟩ ++ le32 0)
    [47, 46, 46, 47, 101, 116, 99, 0]

/-- The shell on the PC mounts `/home` on the first drive. -/
def mountHome : Action :=
  .mount { rootdir := [], opendir := fun _ => true, drivesLocked := true } 0 [47, 104, 111, 109, 101]

/-- The PSP asks before the mount, after it, and after a new start. -/
def removals : List Action := [removeEtc, mountHome, removeEtc, .reconnect, removeEtc]

/-- No name of the root directories begins the way to `/etc`. -/
def HidesEtc (root : Path) : Prop := ¬tokens slash root <+: tokens slash [47, 101, 116, 99]

instance : DecidablePred HidesEtc := fun _ => inferInstanceAs (Decidable (¬_))

theorem removals_hides : ∀ a ∈ removals, ∀ h : Host FileState,
    (∀ d, HidesEtc (h.drives d).rootdir) →
      ∀ d, HidesEtc ((step laxOs h a).2.drives d).rootdir := by
  intro a ha h hroots
  have hpacket : ∀ d, HidesEtc ((step laxOs h removeEtc).2.drives d).rootdir := fun d => by
    rw [removeEtc, step, (leaves_startHostfs _).served _ d]
    exact hroots d
  simp only [removals, List.mem_cons, List.not_mem_nil, or_false] at ha
  rcases ha with rfl | rfl | rfl | rfl | rfl
  · exact hpacket
  · intro d
    show HidesEtc (Function.update h.drives ⟨0, by decide⟩
      { rootdir := mountPath _ [47, 104, 111, 109, 101], currdir := [slash] } d).rootdir
    rcases eq_or_ne d ⟨0, by decide⟩ with rfl | hne
    · rw [Function.update_self]
      decide
    · rw [Function.update_of_ne hne]
      exact hroots d
  · exact hpacket
  · intro d
    simp only [step, initHostfs, drives_closeHostfs]
    exact hroots d
  · exact hpacket

theorem session_roots {P : Path → Prop} {os : HostOs σ} {actions : List Action}
    (hstep : ∀ a ∈ actions, ∀ h : Host σ, (∀ d, P (h.drives d).rootdir) →
      ∀ d, P ((step os h a).2.drives d).rootdir) {h : Host σ} (hroots : ∀ d, P (h.drives d).rootdir) :
    ∀ d, P ((session os h actions).2.drives d).rootdir := by
  induction actions generalizing h with
  | nil => exact hroots
  | cons a actions ih =>
      exact ih (fun b hb => hstep b (List.mem_cons_of_mem _ hb))
        (hstep a List.mem_cons_self h hroots)

theorem srvHost_mounted {path : Path} (hpath : Mounted laxOs srvHost removals path) :
    path ≠ [47, 101, 116, 99] := by
  rintro rfl
  obtain ⟨before, after, d, happend, hwithin⟩ := hpath
  have hbefore : ∀ a ∈ before, a ∈ removals := fun a ha => by
    rw [happend]
    exact List.mem_append_left _ ha
  have hstart : ∀ d, HidesEtc (srvHost.drives d).rootdir := fun _ =>
    (by decide : HidesEtc [47, 115, 114, 118])
  exact session_roots (fun a ha => removals_hides a (hbefore a ha)) hstart d hwithin.2.1

theorem session_confined_etc :
    session laxOs srvHost removals = session guardedOs srvHost removals ∧
      (session laxOs srvHost removals).2.os.offset = 3 :=
  ⟨session_confined laxOs guardedOs srvHost removals
    (fun _ => ⟨[115, 114, 118],
      (by decide : ([47, 115, 114, 118] : Path) = genPath [115, 114, 118] false)⟩)
    { openFile := fun _ _ => rfl
      unlink := fun path hpath => funext fun f => (if_neg (srvHost_mounted hpath)).symm
      rmdir := fun _ _ => rfl
      mkdir := fun _ _ => rfl
      rename := fun _ _ _ _ => rfl
      chmod := fun _ _ => rfl
      utime := fun _ _ => rfl
      stat := fun _ _ => rfl
      statvfs := fun _ _ => rfl
      scandir := fun _ _ => rfl
      readNames := fun _ _ => rfl
      entries := fun _ _ _ _ _ _ _ _ _ => rfl
      close := rfl
      read := rfl
      write := rfl
      lseek := rfl
      localtime := rfl
      mktime := rfl
      mallocSucceeds := rfl
      drivesLocked := rfl
      errno := rfl }, by decide +kernel⟩

end PsplinkUsb.UsbHostfsPc.SessionConfinement
