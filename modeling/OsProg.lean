import OsProg.Png.Safety
import OsProg.Png.Roundtrip
import OsProg.Png.Release
import OsProg.Png.Truncation
import OsProg.Png.Printing
import OsProg.Png.Failures
import OsProg.Png.Output
import OsProg.Png.Growing
import OsProg.CBuffer.RefCount
import OsProg.CBuffer.Represents
import OsProg.CBuffer.Contents
import OsProg.Net.Accept
import OsProg.Net.Lifetime
import OsProg.Net.Chat
import OsProg.Net.Log
import OsProg.Shell.Tokenize
import OsProg.Shell.Stdout
import OsProg.Shell.Transcript
import OsProg.Shell.Ends
import OsProg.Mock.Transient
import OsProg.Mock.Harness
import OsProg.Infra.Calls
import OsProg.T1000.Wakeup
import OsProg.TestHelpers.ReadBytes
import OsProg.T1000.Deadline
import OsProg.T1000.Progress
import OsProg.TestHelpers.WorkerThread
import OsProg.TestHelpers.Pipe
import OsProg.TestHelpers.WriterBig
import OsProg.Bo.Foo
