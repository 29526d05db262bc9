import Herak.Mqtt.Client
import Herak.Ota.Internal

/-!
# TFTP client

`tftp_client.c`: three slots for the jobs, the turn of the main loop that
resolves the address of the server and requests the file, and the callbacks of
lwIP.  The resolver and the transfers of lwIP know a job by the address of its
slot.
-/

namespace Herak.Tftp

open CString Ota Mqtt

/-- `MAX_CLIENT_JOBS` -/
abbrev maxClientJobs : ℕ := 3
/-- `JOB_TIMEOUT_MSEC` -/
def jobTimeoutMsec : ℕ := 60000
/-- `IP_TIMEOUT_MS` -/
def ipTimeoutMs : ℕ := 10000
/-- `ERR_TIMEOUT` of lwIP -/
def errTimeout : ℤ := -3
/-- `TIMEOUT_STR` -/
def timeoutStr : CStr := lit "Timeout processing the request"

abbrev JobIdx := Fin maxClientJobs

/-- `tftp_client_job_t`; `hooks` and `userContext` are the pointers that the
user has given. -/
structure TftpJob where
  started : ℕ
  lastActivity : ℕ
  requested : Bool
  get : Bool
  total : UInt32
  hooks : Option ℕ
  file : TftpFile
  peerAddr : IpAddr
  ipState : IpResolveState
  userContext : ℕ
  deriving DecidableEq

/-- A slot after `memset`. -/
def noJob : TftpJob where
  started := 0
  lastActivity := 0
  requested := false
  get := false
  total := 0
  hooks := none
  file := noFile
  peerAddr := 0
  ipState := .notResolved
  userContext := 0

/-- The call of a hook of the user. -/
inductive TftpHook
  | open (fname mode : CStr) (isWrite : Bool) (accepted : Bool)
  | close (userContext : ℕ)
  | read (userContext : ℕ)
  | write (userContext : ℕ)
  | error (userContext : ℕ) (err : ℤ) (msg : CStr)
  deriving DecidableEq

/-- What the client calls for a job: the resolver, a transfer of lwIP, or one
of the hooks. -/
inductive TftpCall
  | resolve (peer : Option CStr)
  | transfer (get : Bool) (addr : IpAddr) (port : ℤ) (fname : Option CStr)
  | hook (hooks : ℕ) (hook : TftpHook)
  deriving DecidableEq

/-- The result of `dns_gethostbyname`; the address is written if it is known
already. -/
inductive DnsResult
  | ok (addr : IpAddr)
  | inProgress
  | failed

/-- What the turn of a job reads: the time, and what lwIP returns if it is
called. -/
structure TftpTurn where
  now : ℕ
  dns : DnsResult
  request : Bool

/-- The call of a hook, if there are hooks. -/
def TftpJob.call (job : TftpJob) (hook : TftpHook) : List TftpCall :=
  (job.hooks.map fun hooks => TftpCall.hook hooks hook).toList

def sysTftpClientJobCancel (job : TftpJob) : TftpJob × List TftpCall :=
  (noJob, job.call (.error job.userContext errTimeout timeoutStr))

def tftpPeerFound (job : TftpJob) (ipaddr : IpAddr) : TftpJob :=
  { job with peerAddr := ipaddr, ipState := .resolved }

/-- `sys_tftp_client_job_run` once the resolver has been called. -/
def sysTftpClientJobRequest (job : TftpJob) (t : TftpTurn) :
    TftpJob × List TftpCall :=
  if job.ipState = .resolving then
    if ipTimeoutMs < t.now - job.started then sysTftpClientJobCancel job
    else (job, [])
  else if job.ipState = .resolved ∧ job.requested = false then
    let call := TftpCall.transfer job.get job.peerAddr job.file.port
      job.file.fname
    if t.request = false then
      let result := sysTftpClientJobCancel job
      (result.1, call :: result.2)
    else ({ job with requested := true, lastActivity := t.now }, [call])
  else if job.lastActivity < t.now ∧
      jobTimeoutMsec < t.now - job.lastActivity then
    sysTftpClientJobCancel job
  else (job, [])

def sysTftpClientJobRun (job : TftpJob) (t : TftpTurn) :
    TftpJob × List TftpCall :=
  if job.started = 0 then (job, [])
  else if job.ipState = .notResolved then
    let call := TftpCall.resolve job.file.peer
    let result :=
      match t.dns with
      | .ok addr =>
          sysTftpClientJobRequest
            { job with peerAddr := addr, ipState := .resolved } t
      | .inProgress =>
          sysTftpClientJobRequest { job with ipState := .resolving } t
      | .failed => sysTftpClientJobCancel job
    (result.1, call :: result.2)
  else sysTftpClientJobRequest job t

/-- The slots, `tftp_client_context_t`. -/
abbrev TftpJobs := JobIdx → TftpJob

/-- `sys_tftp_client_run` -/
def sysTftpClientRun (jobs : TftpJobs) (t : JobIdx → TftpTurn) :
    TftpJobs × List (JobIdx × TftpCall) :=
  (fun i => (sysTftpClientJobRun (jobs i) (t i)).1,
    (List.finRange maxClientJobs).flatMap fun i =>
      (sysTftpClientJobRun (jobs i) (t i)).2.map fun call => (i, call))

/-! ## Callbacks -/

/-- The first job whose hook accepts the file. -/
def tftpClientOpenSlot (jobs : TftpJobs) (accepts : JobIdx → Bool) :
    Option JobIdx :=
  (List.finRange maxClientJobs).find? fun i =>
    (jobs i).started ≠ 0 && accepts i

/-- `tftp_client_open`; it is called without a handle and asks the jobs one
after the other. -/
def tftpClientOpen (jobs : TftpJobs) (fname mode : CStr) (isWrite : Bool)
    (accepts : JobIdx → Bool) (now : ℕ) :
    TftpJobs × List (JobIdx × TftpCall) :=
  let asked := (List.finRange maxClientJobs).filter fun i =>
    (jobs i).started ≠ 0 ∧
      ∀ j, tftpClientOpenSlot jobs accepts = some j → i ≤ j
  let calls := asked.flatMap fun i =>
    ((jobs i).call (.open fname mode isWrite (accepts i))).map fun call =>
      (i, call)
  match tftpClientOpenSlot jobs accepts with
  | none => (jobs, calls)
  | some i =>
      (Function.update jobs i { jobs i with lastActivity := now }, calls)

/-- A callback for the handle `i`: nothing is done in a slot without a
started job. -/
def onJob (jobs : TftpJobs) (i : JobIdx)
    (f : TftpJob → TftpJob × List TftpCall) :
    TftpJobs × List (JobIdx × TftpCall) :=
  if (jobs i).started = 0 then (jobs, [])
  else
    (Function.update jobs i (f (jobs i)).1,
      (f (jobs i)).2.map fun call => (i, call))

def tftpClientClose (jobs : TftpJobs) (i : JobIdx) :
    TftpJobs × List (JobIdx × TftpCall) :=
  onJob jobs i fun job => (noJob, job.call (.close job.userContext))

/-- `res` is what the hook returns. -/
def tftpClientRead (jobs : TftpJobs) (i : JobIdx) (now : ℕ) (res : ℤ) :
    TftpJobs × List (JobIdx × TftpCall) :=
  onJob jobs i fun job =>
    ({ job with
        lastActivity := now
        total :=
          if 0 < res then job.total + UInt32.ofNat res.toNat else job.total },
      job.call (.read job.userContext))

/-- `len` is the length of the first `pbuf`. -/
def tftpClientWrite (jobs : TftpJobs) (i : JobIdx) (now : ℕ) (len : UInt16) :
    TftpJobs × List (JobIdx × TftpCall) :=
  onJob jobs i fun job =>
    ({ job with lastActivity := now, total := job.total + len.toUInt32 },
      job.call (.write job.userContext))

def tftpClientError (jobs : TftpJobs) (i : JobIdx) (err : ℤ) (msg : CStr) :
    TftpJobs × List (JobIdx × TftpCall) :=
  onJob jobs i fun job => (noJob, job.call (.error job.userContext err msg))

/-! ## New jobs -/

/-- The first slot without a started job. -/
def freeSlot (jobs : TftpJobs) : Option JobIdx :=
  (List.finRange maxClientJobs).find? fun i => (jobs i).started = 0

/-- What a user asks for. -/
structure TftpOrder where
  hooks : ℕ
  file : TftpFile
  userContext : ℕ
  get : Bool

/-- `tftp_clinet_new_job` -/
def tftpClinetNewJob (jobs : TftpJobs) (order : TftpOrder) (now : ℕ) :
    ℤ × TftpJobs :=
  match freeSlot jobs with
  | none => (-1, jobs)
  | some i =>
      (0, Function.update jobs i
        { noJob with
          file := order.file
          hooks := some order.hooks
          userContext := order.userContext
          get := order.get
          started := now })

end Herak.Tftp
