import Mathlib.Tactic

/-! What the session maintainer exchanges with servers and callers: error codes
(`error.hpp`), credentials (`credentials.hpp`), responses, session tokens (`types.hpp`)
and the states of session and connection (`session_state.hpp`, `connection_state.hpp`).
Responses carry what the maintainer reads of them. -/

namespace MediafireSdk.Api

/-! ### Error codes -/

/-- The category `http_category()`. -/
inductive HttpErrorCode where
  | unableToConnect | unableToConnectToProxy | unableToResolve | sslHandshakeFailure
  | writeFailure | readFailure | proxyProtocolFailure | ioTimeout
  | other (value : ℤ)
  deriving DecidableEq, Repr

inductive ErrorCode where
  | http (code : HttpErrorCode)
  | sessionTokenInvalid | signatureInvalid | asyncOperationInProgress
  | credentialsInvalid | parametersInvalid | facebookAuthenticationFailure
  | accountTemporarilyLocked
  | other (category : String) (value : ℤ)
  deriving DecidableEq, Repr

namespace ErrorCode

def isInvalidSessionTokenError : Option ErrorCode → Bool
  | some .sessionTokenInvalid | some .signatureInvalid => true
  | _ => false

def isInvalidCredentialsError : ErrorCode → Bool
  | .credentialsInvalid | .parametersInvalid | .facebookAuthenticationFailure => true
  | _ => false

/-- The errors that count as connection errors. -/
def isConnectionError : ErrorCode → Bool
  | .http (.other _) => false
  | .http _ => true
  | _ => false

end ErrorCode

/-! ### Credentials, responses and tokens -/

/-- Compared with `AreVariantsEqual`, which is equality. -/
inductive Credentials where
  | email (email password : String)
  | ekey (ekey password : String)
  | facebook (fbAccessToken : String)
  deriving DecidableEq, Repr

/-- The response of `user/get_session_token`. -/
structure TokenResponse where
  errorCode : Option ErrorCode := none
  sessionToken : String := ""
  pkey : String := ""
  time : String := ""
  secretKey : ℤ := 0
  deriving DecidableEq, Repr

/-- The response of any other call; `newKey` when its `response.new_key` is `"yes"`. -/
structure ApiResponse where
  errorCode : Option ErrorCode := none
  newKey : Bool := false
  deriving DecidableEq, Repr

/-- `credentials` is no field of the source: the credentials of the request that the token is the
answer to, read by no function. -/
structure SessionTokenData where
  sessionToken : String
  pkey : String
  time : String
  secretKey : ℤ
  credentials : Credentials
  deriving DecidableEq, Repr

def TokenResponse.token (response : TokenResponse) (credentials : Credentials) :
    SessionTokenData where
  sessionToken := response.sessionToken
  pkey := response.pkey
  time := response.time
  secretKey := response.secretKey
  credentials := credentials

/-! ### Session and connection states -/

inductive SessionState where
  | uninitialized
  | initialized
  | credentialsFailure (pkey : Option String) (errorCode : ErrorCode) (response : TokenResponse)
  | prolongedError (errorCode : ErrorCode) (response : TokenResponse)
  | running (response : TokenResponse)
  deriving DecidableEq, Repr

namespace SessionState

def isUninitialized : SessionState → Bool
  | .uninitialized => true
  | _ => false

def isInitialized : SessionState → Bool
  | .initialized => true
  | _ => false

def isCredentialsError : SessionState → Bool
  | .credentialsFailure _ _ _ => true
  | _ => false

def isProlongedError : SessionState → Bool
  | .prolongedError _ _ => true
  | _ => false

def isRunning : SessionState → Bool
  | .running _ => true
  | _ => false

/-- `AreVariantsEqual`: only the parts that the `operator==` compare. -/
def same : SessionState → SessionState → Bool
  | .uninitialized, .uninitialized => true
  | .initialized, .initialized => true
  | .credentialsFailure pkey errorCode _, .credentialsFailure pkey' errorCode' _ =>
    pkey = pkey' ∧ errorCode = errorCode'
  | .prolongedError errorCode _, .prolongedError errorCode' _ => errorCode = errorCode'
  | .running response, .running response' =>
    response.sessionToken = response'.sessionToken ∧ response.pkey = response'.pkey
  | _, _ => false

/-- The states on whose entry `NewStateVisitor` clears the token tables. -/
def clearsTokens : SessionState → Bool
  | .uninitialized | .initialized | .credentialsFailure _ _ _ => true
  | _ => false

/-- States that are the same are of one kind. -/
theorem isRunning_of_same {s t : SessionState} (h : s.same t = true) :
    s.isRunning = t.isRunning := by
  cases s <;> cases t <;> first | rfl | simp [same] at h

end SessionState

inductive ConnectionState where
  | uninitialized
  | unconnected (errorCode : ErrorCode)
  | connected
  deriving DecidableEq, Repr

namespace ConnectionState

def isConnected : ConnectionState → Bool
  | .connected => true
  | _ => false

def isUnconnected : ConnectionState → Bool
  | .unconnected _ => true
  | _ => false

end ConnectionState

end MediafireSdk.Api
