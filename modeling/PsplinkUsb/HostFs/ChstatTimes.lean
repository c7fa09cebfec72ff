import PsplinkUsb.Library.CString
import PsplinkUsb.HostFs.Framing

namespace PsplinkUsb.HostFs.ChstatTimes

open PsplinkUsb.Library.CString
open PsplinkUsb.HostFs.Wire
open PsplinkUsb.HostFs.Exchange
open PsplinkUsb.HostFs.Answers
open PsplinkUsb.HostFs.Requests
open PsplinkUsb.HostFs.Framing
open PsplinkUsb.UsbHostfs.CommandXchg
open PsplinkUsb.UsbHostfs.HostDriver
open PsplinkUsb.UsbHostfsPc.HostPath
open PsplinkUsb.UsbHostfsPc.OsCalls
open PsplinkUsb.UsbHostfsPc.HostFiles
open PsplinkUsb.UsbHostfsPc.Handlers
open PsplinkUsb.UsbHostfsPc.PlainFile

/-- What `chmod` and `utime` do to a file when they succeed, as `stat` shows it. `utime` is given
whole seconds, and sets both times to them. -/
structure ChangesAttributes {σ : Type} (os : HostOs σ) : Prop where
  chmod : ∀ path mode s s' st, os.chmod path mode s = (.ok (), s') → os.stat path s = .ok st →
    ∃ ctime, os.stat path s' =
      .ok { st with mode := st.mode &&& ~~~0o7777 ||| mode &&& 0o7777, ctime := ctime }
  utime : ∀ path atime mtime s s' st, os.utime path atime mtime s = (.ok (), s') →
    os.stat path s = .ok st →
    ∃ ctime, os.stat path s' =
      .ok { st with
        atime := atime, atimeNsec := 0, mtime := mtime, mtimeNsec := 0, ctime := ctime }

def dateTm (t : DateTime) : Tm where
  year := t.year.toNat - 1900
  mon := t.month.toNat - 1
  mday := t.day.toNat
  hour := t.hour.toNat
  min := t.minute.toNat
  sec := t.second.toNat

variable {σ : Type} {os : HostOs σ}

/-- The file has what the caller gave for the attributes whose bits are set, and the others as
they were. -/
structure Carried (os : HostOs σ) (stat : StatArgs) (bits : Word) (before after : Stat) :
    Prop where
  mode : if bits &&& pspChstatMode ≠ 0 then after.mode &&& 0o777 = stat.mode &&& 0o777
    else after.mode = before.mode
  atime : if bits &&& pspChstatAtime ≠ 0 then
      os.mktime (dateTm stat.atime) = some after.atime ∧ after.atimeNsec = 0
    else after.atime = before.atime ∧ after.atimeNsec = before.atimeNsec
  mtime : if bits &&& pspChstatMtime ≠ 0 then
      os.mktime (dateTm stat.mtime) = some after.mtime ∧ after.mtimeNsec = 0
    else after.mtime = before.mtime ∧ after.mtimeNsec = before.mtimeNsec
  size : after.size = before.size

/-- A time that is to stay while the other one is set is one of whole seconds. -/
structure OtherWhole (bits : Word) (before : Stat) : Prop where
  atime : bits &&& pspChstatAtime = 0 → bits &&& pspChstatMtime ≠ 0 → before.atimeNsec = 0
  mtime : bits &&& pspChstatMtime = 0 → bits &&& pspChstatAtime ≠ 0 → before.mtimeNsec = 0

/-- The access time that is sent. -/
def sentAtime (stat : StatArgs) : DateTime :=
  { stat.atime with minute := stat.mtime.minute, second := stat.mtime.second }

/-! ### The handler -/

variable {path : Path} {cmd : Bytes} {bits mask : Word} {stime : Tm} {set : TimeAttr} {s s' : σ}
  {st : Stat}

def timeOf : TimeAttr → Stat → ℤ
  | .atime, st => st.atime
  | .mtime, st => st.mtime

def nsecOf : TimeAttr → Stat → ℕ
  | .atime, st => st.atimeNsec
  | .mtime, st => st.mtimeNsec

theorem utime_stat (hos : ChangesAttributes os) {atime mtime : ℤ} {result : Except Errno Unit}
    (h : os.utime path atime mtime s = (result, s')) (hok : result.isOk = true)
    (hst : os.stat path s = .ok st) :
    ∃ ctime, os.stat path s' =
      .ok { st with
        atime := atime, atimeNsec := 0, mtime := mtime, mtimeNsec := 0, ctime := ctime } := by
  cases result with
  | error e => cases hok
  | ok u => exact hos.utime path atime mtime s s' st h hst

theorem pspSettime_stat (hos : ChangesAttributes os)
    (h : pspSettime os path stime set s = (true, s')) (hst : os.stat path s = .ok st) :
    ∃ st', os.stat path s' = .ok st' ∧ st'.mode = st.mode ∧ st'.size = st.size ∧
      os.mktime stime = some (timeOf set st') ∧ (∀ time, nsecOf time st' = 0) ∧
      ∀ other, other ≠ set → timeOf other st' = timeOf other st := by
  rw [pspSettime, hst] at h
  dsimp only at h
  split at h
  · cases h
  · rename_i convtime hconv
    rw [hconv]
    have hnsec (st' : Stat) (hatime : st'.atimeNsec = 0) (hmtime : st'.mtimeNsec = 0)
        (time : TimeAttr) : nsecOf time st' = 0 := by
      cases time with
      | atime => exact hatime
      | mtime => exact hmtime
    cases set with
    | atime =>
        obtain ⟨hok, rfl⟩ := Prod.mk.inj h
        obtain ⟨ctime, hstat⟩ := utime_stat hos rfl hok hst
        refine ⟨_, hstat, rfl, rfl, rfl, hnsec _ rfl rfl, fun other hother => ?_⟩
        cases other with
        | atime => exact absurd rfl hother
        | mtime => rfl
    | mtime =>
        obtain ⟨hok, rfl⟩ := Prod.mk.inj h
        obtain ⟨ctime, hstat⟩ := utime_stat hos rfl hok hst
        refine ⟨_, hstat, rfl, rfl, rfl, hnsec _ rfl rfl, fun other hother => ?_⟩
        cases other with
        | atime => rfl
        | mtime => exact absurd rfl hother

theorem chstatTime_stat (hos : ChangesAttributes os)
    (h : chstatTime os path bits mask stime set s = (true, s')) (hst : os.stat path s = .ok st) :
    ∃ st', os.stat path s' = .ok st' ∧ st'.mode = st.mode ∧ st'.size = st.size ∧
      (if bits &&& mask ≠ 0 then os.mktime stime = some (timeOf set st')
        else timeOf set st' = timeOf set st) ∧
      (∀ time, nsecOf time st' = if bits &&& mask ≠ 0 then 0 else nsecOf time st) ∧
      ∀ other, other ≠ set → timeOf other st' = timeOf other st := by
  rw [chstatTime] at h
  split at h
  · rename_i hbit
    simp only [if_pos hbit]
    exact pspSettime_stat hos h hst
  · rename_i hbit
    obtain ⟨-, rfl⟩ := Prod.mk.inj h
    exact ⟨st, hst, rfl, rfl, by rw [if_neg hbit], fun _ => by rw [if_neg hbit], fun _ _ => rfl⟩

theorem pspChstat_steps (h : pspChstat os path cmd s = (0, s')) :
    ∃ s₁ s₂,
      (if field32 cmd 12 &&& pspChstatMode ≠ 0 then
        os.chmod path (field32 cmd 16 &&& 0o777) s = (.ok (), s₁) else s₁ = s) ∧
      chstatTime os path (field32 cmd 12) pspChstatAtime (timeStamp cmd 28) .atime s₁ =
        (true, s₂) ∧
      chstatTime os path (field32 cmd 12) pspChstatMtime (timeStamp cmd 40) .mtime s₂ =
        (true, s') := by
  simp only [pspChstat] at h
  rcases hchmod : (if field32 cmd 12 &&& pspChstatMode ≠ 0 then
    os.chmod path (field32 cmd 16 &&& 0o777) s else (.ok (), s)) with ⟨result, s₁⟩
  rw [hchmod] at h
  cases result with
  | error e =>
      have herror := getError_toInt_neg e
      rw [(Prod.mk.inj h).1] at herror
      cases herror
  | ok u =>
      dsimp only at h
      rcases hatime : chstatTime os path (field32 cmd 12) pspChstatAtime (timeStamp cmd 28) .atime
        s₁ with ⟨set, s₂⟩
      rw [hatime] at h
      cases set with
      | false => cases (Prod.mk.inj h).1
      | true =>
          rcases hmtime : chstatTime os path (field32 cmd 12) pspChstatMtime (timeStamp cmd 40)
            .mtime s₂ with ⟨set, s₃⟩
          rw [hmtime] at h
          cases set with
          | false => cases (Prod.mk.inj h).1
          | true =>
              obtain ⟨-, rfl⟩ := Prod.mk.inj h
              refine ⟨s₁, s₂, ?_, hatime, hmtime⟩
              split at hchmod
              · rename_i hbit
                rw [if_pos hbit]
                exact hchmod
              · rename_i hbit
                rw [if_neg hbit]
                exact (Prod.mk.inj hchmod).2.symm

theorem permissions_chmod (mode old : Word) :
    (old &&& ~~~0o7777 ||| (mode &&& 0o777) &&& 0o7777) &&& 0o777 = mode &&& 0o777 := by
  calc
    _ = old &&& (~~~0o7777 &&& 0o777) ||| mode &&& (0o777 &&& (0o7777 &&& 0o777)) := by
      rw [BitVec.and_or_distrib_right, BitVec.and_assoc, BitVec.and_assoc, BitVec.and_assoc]
    _ = old &&& 0 ||| mode &&& 0o777 := rfl
    _ = mode &&& 0o777 := by simp

theorem pspChstat_stat (hos : ChangesAttributes os) (h : pspChstat os path cmd s = (0, s'))
    (hst : os.stat path s = .ok st) :
    ∃ after, os.stat path s' = .ok after ∧ after.size = st.size ∧
      (if field32 cmd 12 &&& pspChstatMode ≠ 0 then
        after.mode &&& 0o777 = field32 cmd 16 &&& 0o777 else after.mode = st.mode) ∧
      (if field32 cmd 12 &&& pspChstatAtime ≠ 0 then
        os.mktime (timeStamp cmd 28) = some after.atime else after.atime = st.atime) ∧
      (if field32 cmd 12 &&& pspChstatMtime ≠ 0 then
        os.mktime (timeStamp cmd 40) = some after.mtime else after.mtime = st.mtime) ∧
      ∀ time, nsecOf time after =
        if field32 cmd 12 &&& pspChstatMtime ≠ 0 then 0
        else if field32 cmd 12 &&& pspChstatAtime ≠ 0 then 0 else nsecOf time st := by
  obtain ⟨s₁, s₂, hmode, hatime, hmtime⟩ := pspChstat_steps h
  have hfirst : ∃ st₁, os.stat path s₁ = .ok st₁ ∧ st₁.size = st.size ∧ st₁.atime = st.atime ∧
      st₁.mtime = st.mtime ∧ (∀ time, nsecOf time st₁ = nsecOf time st) ∧
      (if field32 cmd 12 &&& pspChstatMode ≠ 0 then
        st₁.mode &&& 0o777 = field32 cmd 16 &&& 0o777 else st₁.mode = st.mode) := by
    split at hmode
    · rename_i hbit
      obtain ⟨ctime, hstat⟩ := hos.chmod _ _ _ _ st hmode hst
      refine ⟨_, hstat, rfl, rfl, rfl, fun time => ?_, ?_⟩
      · cases time with
        | atime => rfl
        | mtime => rfl
      · rw [if_pos hbit]
        exact permissions_chmod _ _
    · rename_i hbit
      obtain rfl := hmode
      exact ⟨st, hst, rfl, rfl, rfl, fun _ => rfl, by rw [if_neg hbit]⟩
  obtain ⟨st₁, hstat₁, hsize₁, hatime₁, hmtime₁, hnsec₁, hmode₁⟩ := hfirst
  obtain ⟨st₂, hstat₂, hmode₂, hsize₂, hset₂, hnsec₂, hkept₂⟩ := chstatTime_stat hos hatime hstat₁
  obtain ⟨after, hstat, hmode₃, hsize, hset, hnsec, hkept⟩ := chstatTime_stat hos hmtime hstat₂
  have hatime₂ : after.atime = st₂.atime := hkept .atime TimeAttr.noConfusion
  have hmtime₂ : st₂.mtime = st₁.mtime := hkept₂ .mtime TimeAttr.noConfusion
  refine ⟨after, hstat, by rw [hsize, hsize₂, hsize₁], ?_, ?_, ?_, fun time => ?_⟩
  · rw [hmode₃, hmode₂]
    exact hmode₁
  · rw [hatime₂, ← hatime₁]
    exact hset₂
  · rw [← hmtime₁, ← hmtime₂]
    exact hset
  · rw [hnsec, hnsec₂, hnsec₁]

/-! ### The request -/

variable {arg : PspIoDrvFileArg} {file : Bytes} {stat : StatArgs}

theorem field16_le16 {front : Bytes} {offset : ℕ} (hfront : front.length = offset)
    (w : BitVec 16) (back : Bytes) : field16 (front ++ (le16 w ++ back)) offset = w :=
  @field_toBytes 2 front offset hfront w back

theorem timeStamp_encode {front : Bytes} {offset : ℕ} (hfront : front.length = offset)
    (t : DateTime) (back : Bytes) : timeStamp (front ++ (t.encode ++ back)) offset = dateTm t := by
  have hyear := field16_le16 hfront t.year
    (le16 t.month ++ (le16 t.day ++ (le16 t.hour ++ (le16 t.minute ++ (le16 t.second ++ back)))))
  have hmonth := @field16_le16 (front ++ le16 t.year) (offset + 2) (by simp [hfront]) t.month
    (le16 t.day ++ (le16 t.hour ++ (le16 t.minute ++ (le16 t.second ++ back))))
  have hday := @field16_le16 (front ++ le16 t.year ++ le16 t.month) (offset + 4)
    (by simp [hfront]) t.day (le16 t.hour ++ (le16 t.minute ++ (le16 t.second ++ back)))
  have hhour := @field16_le16 (front ++ le16 t.year ++ le16 t.month ++ le16 t.day) (offset + 6)
    (by simp [hfront]) t.hour (le16 t.minute ++ (le16 t.second ++ back))
  have hminute := @field16_le16
    (front ++ le16 t.year ++ le16 t.month ++ le16 t.day ++ le16 t.hour) (offset + 8)
    (by simp [hfront]) t.minute (le16 t.second ++ back)
  have hsecond := @field16_le16
    (front ++ le16 t.year ++ le16 t.month ++ le16 t.day ++ le16 t.hour ++ le16 t.minute)
    (offset + 10) (by simp [hfront]) t.second back
  simp only [List.append_assoc] at hmonth hday hhour hminute hsecond
  simp only [timeStamp, DateTime.encode, List.append_assoc, hyear, hmonth, hday, hhour, hminute,
    hsecond, dateTm]

/-- The request of `io_chstat`. -/
def chstatRequest (arg : PspIoDrvFileArg) (file : Bytes) (stat : StatArgs) (bits : Word) :
    XchgRequest :=
  pathRequest .chstat
    (le32 bits ++ le32 stat.mode ++ le64 stat.size ++ chstatTimes stat ++ le32 arg.fsNum) file 0

/-- The fields of the request, as `handle_chstat` finds them. -/
theorem chstatRequest_fields (arg : PspIoDrvFileArg) (file : Bytes) (stat : StatArgs)
    (bits : Word) :
    field32 (chstatRequest arg file stat bits).outcmd 12 = bits ∧
      field32 (chstatRequest arg file stat bits).outcmd 16 = stat.mode ∧
      timeStamp (chstatRequest arg file stat bits).outcmd 28 = dateTm (sentAtime stat) ∧
      timeStamp (chstatRequest arg file stat bits).outcmd 40 = dateTm stat.mtime ∧
      field32 (chstatRequest arg file stat bits).outcmd 52 = arg.fsNum := by
  have hlength (t : DateTime) : t.encode.length = 12 := by simp [DateTime.encode]
  let header := HostFsCmd.encode
    ⟨hostfsMagic, HostFsCommand.chstat.code, (chstatRequest arg file stat bits).extralen⟩
  let front := header ++ (le32 bits ++ le32 stat.mode ++ le64 stat.size)
  have houtcmd : (chstatRequest arg file stat bits).outcmd =
      front ++ ((sentAtime stat).encode ++ (stat.mtime.encode ++ le32 arg.fsNum)) := by
    simp only [front, List.append_assoc]
    rw [← List.append_assoc (sentAtime stat).encode]
    simp only [← List.append_assoc (le64 stat.size), ← List.append_assoc (le32 stat.mode),
      ← List.append_assoc (le32 bits)]
    rfl
  have hfront : front.length = 28 := by simp [front, header, sizeofHostFsCmd]
  refine ⟨?_, ?_, ?_, ?_, ?_⟩
  · exact @field32_outcmd .chstat _ [] _ _ 0 12 bits
      (le32 stat.mode ++ (le64 stat.size ++ (chstatTimes stat ++ le32 arg.fsNum))) (by simp) rfl
  · exact @field32_outcmd .chstat _ (le32 bits) _ _ 0 16 stat.mode
      (le64 stat.size ++ (chstatTimes stat ++ le32 arg.fsNum)) (by simp) (by simp; rfl)
  · rw [houtcmd]
    exact timeStamp_encode hfront _ _
  · rw [houtcmd, ← List.append_assoc]
    exact timeStamp_encode (by rw [List.length_append, hfront, hlength]) _ _
  · exact @field32_outcmd .chstat _
      (le32 bits ++ le32 stat.mode ++ le64 stat.size ++ chstatTimes stat) _ _ 0 52 arg.fsNum []
      (by simp) (by simp [chstatTimes, hlength]; rfl)

theorem runs_chstat (hfile : 0 ∉ file) (hreq : Sendable (chstatRequest arg file stat bits))
    {h : Host σ} {fullpath : Path} {res : Word}
    (hpath : makePath (h.pathEnv os) arg.fsNum file false = some fullpath)
    (hres : pspChstat os fullpath (chstatRequest arg file stat bits).outcmd h.os = (res, s')) :
    Runs os (ioChstat true arg (some file) (some stat) bits) h
      { ret := res.signExtend 64, arg := arg, indata := [] } { h with os := s' } := by
  obtain ⟨-, -, -, -, hfsnum⟩ := chstatRequest_fields arg file stat bits
  have hserve : doHostfs os h (chstatRequest arg file stat bits).outcmd =
      handleChstat os h (chstatRequest arg file stat bits).outcmd := doHostfs_outcmd h
  have hname : cString (chstatRequest arg file stat bits).outdata = file :=
    cstr_append_zero hfile []
  have hanswers : Answers .chstat (handleChstat os h (chstatRequest arg file stat bits).outcmd)
      (chstatRequest arg file stat bits).outdata _ :=
    answers_handleData hreq.outcmd_length (by rw [decode_outcmd]; exact hreq.expected)
      (by rw [decode_outcmd]; exact hreq.outdata_length)
  dsimp only at hanswers
  rw [hfsnum, hname, hpath] at hanswers
  dsimp only at hanswers
  rw [hres] at hanswers
  have hruns := runs_exchangeOnce arg hreq (by rw [hserve]; exact hanswers) (replyOk_res rfl res)
    (returnRes arg)
  rw [returnRes, takenReply_res rfl] at hruns
  exact hruns

/-- A call that returns 0 has changed the file as `psp_chstat` does. -/
theorem pspChstat_of_runs (hfile : 0 ∉ file) {h h' : Host σ} {fullpath : Path} {r : IoResult}
    (hpath : makePath (h.pathEnv os) arg.fsNum file false = some fullpath)
    (hruns : Runs os (ioChstat true arg (some file) (some stat) bits) h r h')
    (hret : r.ret = 0) :
    pspChstat os fullpath (chstatRequest arg file stat bits).outcmd h.os = (0, h'.os) := by
  rcases hres : pspChstat os fullpath (chstatRequest arg file stat bits).outcmd h.os with ⟨res, s'⟩
  obtain ⟨rfl, rfl⟩ := hruns.unique (runs_chstat hfile (hruns.sendable_path trivial nofun) hpath hres)
  have hzero : res = 0 := by
    apply BitVec.eq_of_toInt_eq
    rw [← BitVec.toInt_signExtend_of_le (by decide : 32 ≤ 64)]
    exact congrArg BitVec.toInt hret
  rw [hzero]

/-- Both times are as the caller gave them or as they were, in whole seconds; what is behind these
stays exactly if no time is set, or there was nothing. -/
theorem carried_nsec_iff {before after : Stat}
    (hnsec : ∀ time, nsecOf time after =
      if bits &&& pspChstatMtime ≠ 0 then 0
      else if bits &&& pspChstatAtime ≠ 0 then 0 else nsecOf time before) :
    (after.atimeNsec = (if bits &&& pspChstatAtime ≠ 0 then 0 else before.atimeNsec) ∧
      after.mtimeNsec = if bits &&& pspChstatMtime ≠ 0 then 0 else before.mtimeNsec) ↔
      OtherWhole bits before := by
  have hatime := hnsec .atime
  have hmtime := hnsec .mtime
  simp only [nsecOf] at hatime hmtime
  rw [hatime, hmtime]
  constructor
  · rintro ⟨ha, hm⟩
    constructor
    · intro hbit hother
      rw [if_pos hother, if_neg (not_not.mpr hbit)] at ha
      exact ha.symm
    · intro hbit hother
      rw [if_neg (not_not.mpr hbit), if_pos hother, if_neg (not_not.mpr hbit)] at hm
      exact hm.symm
  · rintro ⟨ha, hm⟩
    by_cases hA : bits &&& pspChstatAtime = 0
    · by_cases hM : bits &&& pspChstatMtime = 0
      · simp only [ne_eq, hA, hM, not_true_eq_false, if_false, and_self]
      · simp only [ne_eq, hA, hM, not_true_eq_false, not_false_eq_true, if_true, if_false,
          ha hA hM, and_self]
    · by_cases hM : bits &&& pspChstatMtime = 0
      · simp only [ne_eq, hA, hM, not_true_eq_false, not_false_eq_true, if_true, if_false,
          hm hM hA, and_self]
      · simp only [ne_eq, hA, hM, not_false_eq_true, if_true, and_self]

/-- The file has what the caller gave exactly if the access time is not set, or the minute and
the second of the modification time make no difference to it, and a time that is not to be set
has no part of a second to lose when the other one is. -/
theorem chstat_carried_iff (hos : ChangesAttributes os) (hfile : 0 ∉ file) {h h' : Host σ}
    {fullpath : Path} {before : Stat} {r : IoResult}
    (hpath : makePath (h.pathEnv os) arg.fsNum file false = some fullpath)
    (hbefore : os.stat fullpath h.os = .ok before)
    (hruns : Runs os (ioChstat true arg (some file) (some stat) bits) h r h')
    (hret : r.ret = 0) :
    (∃ after, os.stat fullpath h'.os = .ok after ∧ Carried os stat bits before after) ↔
      (bits &&& pspChstatAtime = 0 ∨
        os.mktime (dateTm stat.atime) = os.mktime (dateTm (sentAtime stat))) ∧
        OtherWhole bits before := by
  obtain ⟨hbits, hmode, hatime, hmtime, -⟩ := chstatRequest_fields arg file stat bits
  obtain ⟨after, hafter, hsize, hset⟩ :=
    pspChstat_stat hos (pspChstat_of_runs hfile hpath hruns hret) hbefore
  rw [hbits, hmode, hatime, hmtime] at hset
  obtain ⟨hmodeSet, hatimeSet, hmtimeSet, hnsec⟩ := hset
  rw [← carried_nsec_iff hnsec]
  constructor
  · rintro ⟨after', hafter', hcarried⟩
    rw [hafter] at hafter'
    obtain rfl := Except.ok.inj hafter'
    obtain ⟨-, hwantedA, hwantedM, -⟩ := hcarried
    refine ⟨?_, ?_, ?_⟩
    · rcases eq_or_ne (bits &&& pspChstatAtime) 0 with hbit | hbit
      · exact .inl hbit
      · rw [if_pos hbit] at hatimeSet hwantedA
        exact .inr (hwantedA.1.trans hatimeSet.symm)
    · split at hwantedA
      · rename_i hbit
        rw [if_pos hbit, hwantedA.2]
      · rename_i hbit
        rw [if_neg hbit, hwantedA.2]
    · split at hwantedM
      · rename_i hbit
        rw [if_pos hbit, hwantedM.2]
      · rename_i hbit
        rw [if_neg hbit, hwantedM.2]
  · rintro ⟨hsame, hnsecA, hnsecM⟩
    refine ⟨after, hafter, hmodeSet, ?_, ?_, hsize⟩
    · split
      · rename_i hbit
        rw [if_pos hbit] at hatimeSet hnsecA
        exact ⟨(hsame.resolve_left hbit).trans hatimeSet, hnsecA⟩
      · rename_i hbit
        rw [if_neg hbit] at hatimeSet hnsecA
        exact ⟨hatimeSet, hnsecA⟩
    · split
      · rename_i hbit
        rw [if_pos hbit] at hmtimeSet hnsecM
        exact ⟨hmtimeSet, hnsecM⟩
      · rename_i hbit
        rw [if_neg hbit] at hmtimeSet hnsecM
        exact ⟨hmtimeSet, hnsecM⟩

/-- One file, of which `chmod` and `utime` change the attributes. `mktime` is right for the
first day of the year 2000. -/
def statOs : HostOs Stat :=
  { refusingOs Stat with
    chmod := fun _ mode st =>
      (.ok (), { st with mode := st.mode &&& ~~~0o7777 ||| mode &&& 0o7777 })
    utime := fun _ atime mtime st =>
      (.ok (), { st with atime := atime, atimeNsec := 0, mtime := mtime, mtimeNsec := 0 })
    stat := fun _ st => .ok st
    mktime := fun t => some (946684800 + t.hour * 3600 + t.min * 60 + t.sec) }

theorem statOs_changes : ChangesAttributes statOs where
  chmod := by
    intro path mode s s' st hchmod hst
    obtain ⟨-, rfl⟩ := Prod.mk.inj hchmod
    obtain rfl := Except.ok.inj hst
    exact ⟨_, rfl⟩
  utime := by
    intro path atime mtime s s' st hutime hst
    obtain ⟨-, rfl⟩ := Prod.mk.inj hutime
    obtain rfl := Except.ok.inj hst
    exact ⟨_, rfl⟩

def statHost : Host Stat where
  openFiles := fun _ => FileHandle.closed
  openDirs := fun _ => DirHandle.closed
  drives := fun _ => { rootdir := [slash], currdir := [slash] }
  msslash := false
  nocase := false
  os :=
    { size := 0, mode := 0o100644, ctime := 0
      atime := 0, mtime := 0, atimeNsec := 0, mtimeNsec := 500000000 }

def newYear (minute : BitVec 16) : DateTime :=
  { year := 2000, month := 1, day := 1, hour := 0, minute := minute, second := 0 }

/-- Read a minute after it was written. -/
def readLater : StatArgs where
  mode := 0o600
  size := 0
  atime := newYear 2
  mtime := newYear 1

theorem runs_readLater {res : Word} {st : Stat}
    (hres : pspChstat statOs [47, 97] (chstatRequest ⟨0, 0⟩ [97] readLater bits).outcmd
      statHost.os = (res, st)) :
    Runs statOs (ioChstat true ⟨0, 0⟩ (some [97]) (some readLater) bits) statHost
      { ret := res.signExtend 64, arg := ⟨0, 0⟩, indata := [] } { statHost with os := st } :=
  runs_chstat (by decide) (sendable_path trivial (by simp [chstatTimes, DateTime.encode]; rfl)
    (by decide) (fun h => nomatch h)) (by decide) hres

theorem chstat_carried_iff_mtime :
    ∃ r h', Runs statOs (ioChstat true ⟨0, 0⟩ (some [97]) (some readLater) pspChstatMtime)
        statHost r h' ∧ r.ret = 0 ∧
      ((∃ after, statOs.stat [47, 97] h'.os = .ok after ∧
          Carried statOs readLater pspChstatMtime statHost.os after) ↔
        (pspChstatMtime &&& pspChstatAtime = 0 ∨
          statOs.mktime (dateTm readLater.atime) =
            statOs.mktime (dateTm (sentAtime readLater))) ∧
          OtherWhole pspChstatMtime statHost.os) := by
  have hruns := @runs_readLater pspChstatMtime _ _ rfl
  have hret : BitVec.signExtend 64 (pspChstat statOs [47, 97]
      (chstatRequest ⟨0, 0⟩ [97] readLater pspChstatMtime).outcmd statHost.os).1 = 0 := by
    decide
  exact ⟨_, _, hruns, hret, chstat_carried_iff statOs_changes (by decide) (by decide) rfl
    hruns hret⟩

/-- The access time that is set is the minute of the modification time. -/
theorem chstat_crosses_times :
    ChangesAttributes statOs ∧
      ∃ r h', Runs statOs (ioChstat true ⟨0, 0⟩ (some [97]) (some readLater) pspChstatAtime)
          statHost r h' ∧ r.ret = 0 ∧
        ¬∃ after, statOs.stat [47, 97] h'.os = .ok after ∧
          Carried statOs readLater pspChstatAtime statHost.os after := by
  refine ⟨statOs_changes, _, _, runs_readLater rfl, by decide, ?_⟩
  rintro ⟨after, hafter, hcarried⟩
  obtain rfl := Except.ok.inj hafter
  have hatime := hcarried.atime
  rw [if_pos (by decide)] at hatime
  obtain ⟨hatime, -⟩ := hatime
  revert hatime
  decide

end PsplinkUsb.HostFs.ChstatTimes
