import CodeHealth.Issue.Kind
import CodeHealth.Pattern.Basic

/-!
# Literal rules

The rules of the security scan as patterns over one line. A capture named `value` holds what is
reported; for credentials and secrets it is masked.
-/

namespace CodeHealth.Security

open Pattern

/-- The files that a rule is for. -/
inductive RuleScope where
  | all
  | code
  | config
  deriving DecidableEq, Repr

/-- What a rule looks for; its confidence can be configured per family. -/
inductive RuleFamily where
  | credentials
  | secrets
  | weakEncryption
  | hardcodedValues
  deriving DecidableEq, Repr

def RuleFamily.tag : RuleFamily → String
  | .credentials => "credentials"
  | .secrets => "secrets"
  | .weakEncryption => "weak_encryption"
  | .hardcodedValues => "hardcoded_values"

/-- Whether the values of a family must not be shown. -/
def RuleFamily.isConfidential : RuleFamily → Bool
  | .credentials | .secrets => true
  | .weakEncryption | .hardcodedValues => false

structure LiteralRule where
  id : String
  family : RuleFamily
  type : IssueType
  severity : Severity
  confidence : Int
  pattern : Pattern
  description : String
  scope : RuleScope

/-- A word for a credential. -/
def credentialWord : Pattern :=
  oneOf
    [litAnyCase "password", litAnyCase "passwd", litAnyCase "pwd", litAnyCase "secret",
      litAnyCase "api" ++ opt (among "_-") ++ litAnyCase "key", litAnyCase "apikey",
      litAnyCase "access" ++ opt (among "_-") ++ litAnyCase "token",
      litAnyCase "auth" ++ opt (among "_-") ++ litAnyCase "token", litAnyCase "token",
      litAnyCase "private" ++ opt (among "_-") ++ litAnyCase "key",
      litAnyCase "client" ++ opt (among "_-") ++ litAnyCase "secret"]

/-- A quoted value is assigned to a name that ends in a word for a credential. The search finds that
word wherever the name begins. -/
def credentialAssignment : LiteralRule :=
  { id := "credential-assignment"
    family := .credentials
    type := .hardcodedCredentials
    severity := .critical
    confidence := 92
    pattern :=
      credentialWord ++ opt (among "\"'") ++ star blank ++ among ":=" ++ star blank ++
        .capture "q" (among "\"'\x60") ++
        .capture "value" (atLeast 4 (solidExcept "\"'\x60")) ++ .again "q"
    description := "Hardcoded credential"
    scope := .all }

/-- A line assigns a value to a name that ends in a word for a credential. -/
def configCredential : LiteralRule :=
  { id := "config-credential"
    family := .credentials
    type := .hardcodedCredentials
    severity := .critical
    confidence := 90
    pattern :=
      .atStart ++ star blank ++ opt (litAnyCase "export" ++ plus blank) ++
        star (wordOr ".-") ++ credentialWord ++ star blank ++ among ":=" ++ star blank ++
        .capture "value" (solidExcept "\"'\x60#" ++ atLeast 3 (solidExcept "#")) ++
        star blank ++ .atEnd
    description := "Hardcoded credential in configuration"
    scope := .config }

def databaseUrl : LiteralRule :=
  { id := "database-url-credentials"
    family := .credentials
    type := .hardcodedCredentials
    severity := .critical
    confidence := 95
    pattern :=
      .wordEdge ++
        oneOf
          [litAnyCase "mysql", litAnyCase "postgres" ++ opt (litAnyCase "ql"),
            litAnyCase "mongodb" ++ opt (litAnyCase "+srv"), litAnyCase "redis",
            litAnyCase "amqp", litAnyCase "mssql"] ++
        lit "://" ++ plus (solidExcept ":/@") ++ lit ":" ++
        .capture "value" (plus (solidExcept "@/")) ++ lit "@"
    description := "Database URL with embedded password"
    scope := .all }

/-- A capital ASCII letter or a digit. -/
def capitalOrDigit : Pattern :=
  .char fun c => c.isUpper || c.isDigit

def awsAccessKey : LiteralRule :=
  { id := "aws-access-key"
    family := .secrets
    type := .hardcodedSecrets
    severity := .critical
    confidence := 95
    pattern :=
      .wordEdge ++
        .capture "value" (oneOf [lit "AKIA", lit "ASIA"] ++ between 16 16 capitalOrDigit) ++
        .wordEdge
    description := "AWS access key ID"
    scope := .all }

def privateKeyBlock : LiteralRule :=
  { id := "private-key-block"
    family := .secrets
    type := .hardcodedSecrets
    severity := .critical
    confidence := 100
    pattern :=
      lit "-----BEGIN " ++
        opt (oneOf
          [lit "RSA ", lit "EC ", lit "DSA ", lit "OPENSSH ", lit "ENCRYPTED "]) ++
        lit "PRIVATE KEY-----"
    description := "Private key material"
    scope := .all }

def jsonWebToken : LiteralRule :=
  { id := "jwt"
    family := .secrets
    type := .hardcodedSecrets
    severity := .critical
    confidence := 90
    pattern :=
      .wordEdge ++
        .capture "value"
          (lit "eyJ" ++ atLeast 8 (alnumOr "_-") ++ lit ".eyJ" ++ atLeast 8 (alnumOr "_-") ++
            lit "." ++ atLeast 8 (alnumOr "_-"))
    description := "JSON Web Token"
    scope := .all }

def githubToken : LiteralRule :=
  { id := "github-token"
    family := .secrets
    type := .hardcodedSecrets
    severity := .critical
    confidence := 95
    pattern :=
      .wordEdge ++
        .capture "value" (lit "gh" ++ among "pousr" ++ lit "_" ++ atLeast 36 (alnumOr "")) ++
        .wordEdge
    description := "GitHub token"
    scope := .all }

def slackToken : LiteralRule :=
  { id := "slack-token"
    family := .secrets
    type := .hardcodedSecrets
    severity := .critical
    confidence := 95
    pattern :=
      .wordEdge ++
        .capture "value" (lit "xox" ++ among "baprs" ++ lit "-" ++ atLeast 10 (alnumOr "-")) ++
        .wordEdge
    description := "Slack token"
    scope := .all }

/-- The name of a weak hash function. -/
def weakHashName : Pattern :=
  oneOf [litAnyCase "md5", litAnyCase "sha1"]

def weakHash : LiteralRule :=
  { id := "weak-hash"
    family := .weakEncryption
    type := .weakEncryption
    severity := .medium
    confidence := 80
    pattern :=
      oneOf
        [.wordEdge ++ opt (litAnyCase "hashlib.") ++ .capture "value" weakHashName ++
            star blank ++ lit "(",
          litAnyCase "createHash(" ++ star blank ++ among "\"'" ++ weakHashName ++ among "\"'",
          litAnyCase "hashlib.new(" ++ star blank ++ among "\"'" ++ weakHashName ++
            among "\"'"]
    description := "Weak hash function"
    scope := .code }

def weakCipher : LiteralRule :=
  { id := "weak-cipher"
    family := .weakEncryption
    type := .weakEncryption
    severity := .medium
    confidence := 80
    pattern :=
      oneOf
        [.wordEdge ++
            .capture "value"
              (oneOf
                [lit "DES", lit "DES3", lit "TripleDES", lit "RC4", lit "ARC4",
                  lit "Blowfish"]) ++
            oneOf [lit ".new" ++ .wordEdge, star blank ++ lit "("],
          lit "Cipher.getInstance(" ++ star blank ++ among "\"'" ++
            oneOf [lit "DES", lit "RC4", lit "DESede"],
          .wordEdge ++ lit "MODE_ECB" ++ .wordEdge]
    description := "Weak or broken cipher"
    scope := .code }

def insecureRandom : LiteralRule :=
  { id := "insecure-random"
    family := .weakEncryption
    type := .weakEncryption
    severity := .medium
    confidence := 80
    pattern := .wordEdge ++ lit "Math.random()"
    description := "Non-cryptographic random number generator"
    scope := .code }

def hardcodedUrl : LiteralRule :=
  { id := "hardcoded-url"
    family := .hardcodedValues
    type := .hardcodedValues
    severity := .low
    confidence := 70
    pattern :=
      .capture "q" (among "\"'") ++
        .capture "value"
          (lit "http" ++ opt (lit "s") ++ lit "://" ++
            .notAhead (oneOf
              [lit "localhost", lit "127.0.0.1", lit "example.", lit "www.w3.org"]) ++
            plus (solidExcept "\"'")) ++
        .again "q"
    description := "Hardcoded URL"
    scope := .code }

def hardcodedIp : LiteralRule :=
  { id := "hardcoded-ip"
    family := .hardcodedValues
    type := .hardcodedValues
    severity := .medium
    confidence := 75
    pattern :=
      among "\"'" ++
        .capture "value"
          (.notAhead (oneOf [lit "127.0.0.1", lit "0.0.0.0"]) ++
            between 3 3 (between 1 3 digit ++ lit ".") ++ between 1 3 digit) ++
        opt (lit ":" ++ plus digit) ++ among "\"'"
    description := "Hardcoded IP address"
    scope := .code }

def infrastructureSetting : LiteralRule :=
  { id := "infrastructure-setting"
    family := .hardcodedValues
    type := .hardcodedValues
    severity := .low
    confidence := 70
    pattern :=
      .wordEdge ++
        oneOf
          [litAnyCase "port", litAnyCase "host", litAnyCase "hostname", litAnyCase "timeout",
            litAnyCase "max_retries", litAnyCase "retries", litAnyCase "pool_size",
            litAnyCase "batch_size", litAnyCase "page_size"] ++
        star blank ++ among ":=" ++ star blank ++
        .capture "value"
          (oneOf
            [atLeast 2 digit, among "\"'" ++ plus (solidExcept "\"'") ++ among "\"'"])
    description := "Hardcoded infrastructure setting"
    scope := .code }

/-- Every rule in the order of the scan. -/
def literalRules : List LiteralRule :=
  [credentialAssignment, configCredential, databaseUrl, awsAccessKey, privateKeyBlock,
    jsonWebToken, githubToken, slackToken, weakHash, weakCipher, insecureRandom, hardcodedUrl,
    hardcodedIp, infrastructureSetting]

/-- The names of files that should not be in a repository, each with its rule. -/
def sensitiveFilePatterns : List (String × Pattern) :=
  [("env-file", .atStart ++ lit ".env" ++ opt (lit "." ++ plus (wordOr "-")) ++ .atEnd),
    ("key-material",
      lit "." ++
        oneOf
          [litAnyCase "pem", litAnyCase "key", litAnyCase "p12", litAnyCase "pfx",
            litAnyCase "keystore", litAnyCase "jks", litAnyCase "ppk"] ++ .atEnd),
    ("ssh-private-key",
      .atStart ++ lit "id_" ++ oneOf [lit "rsa", lit "dsa", lit "ecdsa", lit "ed25519"] ++
        .atEnd),
    ("secrets-file",
      .atStart ++ litAnyCase "secret" ++ opt (litAnyCase "s") ++ lit "." ++
        oneOf
          [litAnyCase "json", litAnyCase "y" ++ opt (litAnyCase "a") ++ litAnyCase "ml",
            litAnyCase "toml", litAnyCase "env"] ++ .atEnd),
    ("database-dump",
      .atStart ++ oneOf [litAnyCase "backup", litAnyCase "dump"] ++ star anyOnLine ++ lit "." ++
        oneOf [litAnyCase "sql", litAnyCase "db", litAnyCase "dump"] ++ .atEnd)]

/-- The endings of files that document a format. -/
def templateEndings : List String :=
  [".example", ".sample", ".template", ".dist"]

/-- The calls that write to a log. -/
def logCalleePattern : Pattern :=
  .atStart ++
    oneOf
      [lit "print",
        lit "console." ++
          oneOf [lit "log", lit "info", lit "warn", lit "error", lit "debug", lit "trace"],
        opt (oneOf [lit "self", lit "this"] ++ lit ".") ++
          oneOf [lit "logger", lit "logging", lit "log", lit "_logger", lit "LOGGER"] ++
          lit "." ++
          oneOf
            [lit "debug", lit "info", lit "warning", lit "warn", lit "error", lit "critical",
              lit "exception", lit "log", lit "trace"],
        lit "System.out.println"] ++
    .atEnd

/-- A name that speaks of a credential. -/
def sensitiveNamePattern : Pattern :=
  oneOf
    [litAnyCase "password", litAnyCase "passwd", litAnyCase "pwd", litAnyCase "secret",
      litAnyCase "token", litAnyCase "api" ++ opt (lit "_") ++ litAnyCase "key",
      litAnyCase "credential", litAnyCase "private" ++ opt (lit "_") ++ litAnyCase "key"]

end CodeHealth.Security
