import CurlScribe.Main
import CurlScribe.Proofs.Command.RoundTrip
import CurlScribe.Proofs.Command.Variables
import CurlScribe.Proofs.CommandLine.Defaults
import CurlScribe.Proofs.CommandLine.Stream
import CurlScribe.Proofs.Request.Classes
import CurlScribe.Proofs.Request.Credentials
import CurlScribe.Proofs.Request.FormFields
import CurlScribe.Proofs.Request.HeaderAccount
import CurlScribe.Proofs.Request.Outcome
import CurlScribe.Proofs.Request.Scheme
import CurlScribe.Proofs.Request.UrlParts
import CurlScribe.Proofs.Setting.Account
import CurlScribe.Proofs.Setting.Spelling
import CurlScribe.Proofs.Shell.Concatenation
import CurlScribe.Proofs.Shell.NumericEscape
import CurlScribe.Proofs.Shell.Spans
import CurlScribe.Proofs.Target.GoFields
import CurlScribe.Proofs.Target.GoReading
import CurlScribe.Proofs.Target.Injection
import CurlScribe.Proofs.Target.PythonFields
import CurlScribe.Proofs.Target.Quotation
import CurlScribe.Proofs.Target.RequestLine
import CurlScribe.Proofs.Target.RustFields
import CurlScribe.Proofs.Word.Refinement
